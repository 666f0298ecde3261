import TlsCensus.Proofs.CaptureGrowth

/-! A capture walked in place, with nothing copied. Its parts are views, a start and a length, and
octets are asked of a view only; to ask for some that the view or the capture does not have is an
access out of bounds, after which there is no answer. There always is one. What is found are views
behind their own lengths, in order and apart, and their octets are the blobs that are cut out of the
capture. -/
namespace TlsCensus.Capture

structure View where
  start : Nat
  length : Nat
  deriving DecidableEq, Repr

namespace View

def stop (v : View) : Nat := v.start + v.length

def octets (capture : Bytes) (v : View) : Bytes := (capture.drop v.start).take v.length

def part? (v : View) (place size : Nat) : Option View :=
  if place + size ≤ v.length then some ⟨v.start + place, size⟩ else none

def after (v : View) (n : Nat) : View := ⟨v.start + n, v.length - n⟩

theorem afterStart (v : View) (width size : Nat) : (v.after (width + size)).start = v.start + width + size :=
  (Nat.add_assoc _ _ _).symm

theorem afterLess {v : View} {n : Nat} (filled : ¬ v.length = 0) (moved : 0 < n) : (v.after n).length < v.length :=
  Nat.sub_lt (Nat.pos_of_ne_zero filled) moved

/- Octets of the view; none is an access out of bounds, here and below. -/
def read? (capture : Bytes) (v : View) (place size : Nat) : Option Bytes := do
  let part ← v.part? place size
  if part.stop ≤ capture.length then some (part.octets capture) else none

def field? (capture : Bytes) (v : View) (width digits : Nat) : Option (Option View) :=
  match v.part? 0 width with
  | none => some none
  | some header => do
    let size ← header.read? capture (width - digits) digits
    some (v.part? width (Bytes.bigEndian size))

structure Holds (capture : Bytes) (v : View) (b : Bytes) : Prop where
  inside : v.stop ≤ capture.length
  octets : v.octets capture = b

structure Cuts (capture : Bytes) (v : View) (width digits : Nat) (body tail : Bytes) : Prop where
  found : v.field? capture width digits = some (some ⟨v.start + width, body.length⟩)
  front : Holds capture ⟨v.start + width, body.length⟩ body
  back : Holds capture (v.after (width + body.length)) tail
  stop : (v.after (width + body.length)).stop = v.stop
  inside : v.start + width + body.length ≤ v.stop

section Reading
variable {capture : Bytes} {v : View}

theorem Holds.lengthEq {b : Bytes} (holds : Holds capture v b) : b.length = v.length := by
  have inside := holds.inside
  rw [stop] at inside
  rw [← holds.octets, View.octets, List.length_take, List.length_drop]
  omega

theorem Holds.toEnd {b : Bytes} (holds : Holds capture v b) (ends : v.stop = capture.length) : capture.drop v.start = b := by
  rw [stop] at ends
  rw [← holds.octets, View.octets, List.take_of_length_le]
  rw [List.length_drop]
  omega

theorem Holds.positive {b : Bytes} (holds : Holds capture v b) (nonempty : b = [] → False) : ¬ v.length = 0 := by
  rw [← holds.lengthEq]
  exact fun empty => nonempty (List.length_eq_zero_iff.mp empty)

theorem Holds.middlePart {x y z : Bytes} (holds : Holds capture v (x ++ y ++ z)) :
    Holds capture ⟨v.start + x.length, y.length⟩ y := by
  have inside := holds.inside
  have length := holds.lengthEq
  rw [stop] at inside
  rw [List.length_append, List.length_append] at length
  refine ⟨by rw [stop]; dsimp only; omega, ?_⟩
  have behind := congrArg (fun b => (b.drop x.length).take y.length) holds.octets
  rw [View.octets] at behind
  simp only [List.drop_take, List.drop_drop, List.take_take, List.append_assoc, List.drop_left, List.take_left] at behind
  rw [Nat.min_eq_left (by omega)] at behind
  exact behind

theorem Holds.frontPart {x y : Bytes} (holds : Holds capture v (x ++ y)) : Holds capture ⟨v.start, x.length⟩ x :=
  Holds.middlePart (x := []) holds

theorem Holds.backPart {x y : Bytes} {n : Nat} (holds : Holds capture v (x ++ y)) (passed : x.length = n) :
    Holds capture (v.after n) y ∧ (v.after n).stop = v.stop := by
  have length := holds.lengthEq
  rw [List.length_append, passed] at length
  have rest : v.after n = ⟨v.start + x.length, y.length⟩ := by
    rw [after, ← length, Nat.add_sub_cancel_left, passed]
  rw [← List.append_nil (x ++ y)] at holds
  refine ⟨rest ▸ holds.middlePart, ?_⟩
  rw [stop, stop, after]
  dsimp only
  omega

theorem Holds.partRead {x y z : Bytes} (holds : Holds capture v (x ++ y ++ z)) : v.read? capture x.length y.length = some y := by
  have length := holds.lengthEq
  have part := holds.middlePart
  rw [List.length_append, List.length_append] at length
  rw [read?, part?, if_pos (by omega)]
  exact (if_pos part.inside).trans (congrArg some part.octets)

theorem Holds.firstRead {t : UInt8} {rest : Bytes} (holds : Holds capture v (t :: rest)) : v.read? capture 0 1 = some [t] :=
  Holds.partRead (x := []) (y := [t]) holds

section Field
variable {rest : Bytes} (lead digits : Bytes)

theorem Holds.fieldBody (holds : Holds capture v (lead ++ digits ++ rest)) :
    v.field? capture (lead.length + digits.length) digits.length =
      some (v.part? (lead.length + digits.length) (Bytes.bigEndian digits)) := by
  have length := holds.lengthEq
  rw [List.length_append, List.length_append] at length
  have front := holds.frontPart
  rw [List.length_append, ← List.append_nil (lead ++ digits)] at front
  have said := front.partRead
  rw [field?, part?, if_pos (by omega)]
  dsimp only
  rw [Nat.add_zero, Nat.add_sub_cancel, said]
  rfl

theorem Holds.fieldCut {body tail : Bytes} (holds : Holds capture v (lead ++ digits ++ rest))
    (cut : Bytes.cut? (Bytes.bigEndian digits) rest = some (body, tail)) :
    Cuts capture v (lead.length + digits.length) digits.length body tail := by
  obtain ⟨rfl, size⟩ := cutOk.mp cut
  have length := holds.lengthEq
  have found := holds.fieldBody lead digits
  rw [List.length_append, List.length_append, List.length_append] at length
  rw [part?, if_pos (by omega), ← size] at found
  rw [← List.append_assoc] at holds
  obtain ⟨tail, stop⟩ := holds.backPart (by rw [List.length_append, List.length_append])
  have middle := holds.middlePart
  rw [List.length_append] at middle
  refine ⟨found, middle, tail, stop, ?_⟩
  rw [View.stop]
  omega

theorem Holds.fieldShort (holds : Holds capture v (lead ++ digits ++ rest))
    (short : Bytes.cut? (Bytes.bigEndian digits) rest = none) :
    v.field? capture (lead.length + digits.length) digits.length = some none := by
  have length := holds.lengthEq
  rw [List.length_append, List.length_append] at length
  have less : rest.length < Bytes.bigEndian digits := by
    rw [Bytes.cut?, List.length_take] at short
    split at short
    · contradiction
    · omega
  rw [holds.fieldBody lead digits, part?, if_neg (by omega)]

end Field

theorem fieldFew {width : Nat} (few : v.length < width) (digits : Nat) : v.field? capture width digits = some none := by
  rw [field?, part?, if_neg (by omega)]

theorem Holds.fieldMissing {x b : Bytes} (holds : Holds capture v (x ++ b))
    (few : ∀ p q r rest, b = p :: q :: r :: rest → False) : v.field? capture (x.length + 3) 3 = some none := by
  refine fieldFew ?_ 3
  rw [← holds.lengthEq, List.length_append]
  match b, few with
  | [], _ | [_], _ | [_, _], _ => simp
  | p :: q :: r :: rest, few => exact (few p q r rest rfl).elim

end Reading
end View

structure Finds where
  certificates : List View
  issues : List Issue
  deriving DecidableEq, Repr

namespace Finds

def nothing : Finds := ⟨[], []⟩

def issue (i : Issue) : Finds := ⟨[], [i]⟩

def certificate (v : View) : Finds := if v.length = 0 then nothing else ⟨[v], []⟩

def append (x y : Finds) : Finds := ⟨x.certificates ++ y.certificates, x.issues ++ y.issues⟩

def contents (capture : Bytes) (x : Finds) (records : Nat) : Extraction :=
  ⟨x.certificates.map (·.octets capture), x.issues, records⟩

theorem appendContents (capture : Bytes) (x y : Finds) (m n : Nat) :
    (x.append y).contents capture (m + n) = Extraction.append (x.contents capture m) (y.contents capture n) := by
  simp only [contents, append, Extraction.append, List.map_append]

structure Placed (capture : Bytes) (low high : Nat) (v : View) : Prop where
  filled : 0 < v.length
  behind : low + 3 ≤ v.start
  ends : v.stop ≤ high
  prefixed : ∃ a b c, View.octets capture ⟨v.start - 3, 3⟩ = [a, b, c] ∧ Sized a b c (v.octets capture)

/- Everything found lies between two places of the capture. The certificates stand in order and apart,
the issues in the order of their offsets. -/
structure Within (capture : Bytes) (low high : Nat) (x : Finds) : Prop where
  room : low ≤ high
  placed : ∀ v ∈ x.certificates, Placed capture low high v
  apart : x.certificates.Pairwise fun v w => v.stop + 3 ≤ w.start
  ordered : x.issues.Pairwise fun i j => i.offset ≤ j.offset
  inside : ∀ i ∈ x.issues, low ≤ i.offset ∧ i.offset ≤ high

section Within
variable {capture : Bytes} {low middle high : Nat} {x y : Finds}

theorem nothingWithin (room : low ≤ high) : nothing.Within capture low high :=
  ⟨room, List.forall_mem_nil _, .nil, .nil, List.forall_mem_nil _⟩

theorem issueWithin {v : View} {i : Issue} (here : i.offset = v.start) : (issue i).Within capture v.start v.stop := by
  have room : v.start ≤ v.stop := Nat.le_add_right _ _
  refine ⟨room, List.forall_mem_nil _, .nil, List.pairwise_singleton _ _, fun j mem => ?_⟩
  rw [List.mem_singleton.mp mem, here]
  exact ⟨Nat.le_refl _, room⟩

theorem Placed.widen {v : View} {less more : Nat} (placed : Placed capture low high v) (before : less ≤ low)
    (behind : high ≤ more) : Placed capture less more v :=
  ⟨placed.filled, by have := placed.behind; omega, Nat.le_trans placed.ends behind, placed.prefixed⟩

theorem Within.widen {less more : Nat} (within : x.Within capture low high) (before : less ≤ low) (behind : high ≤ more) :
    x.Within capture less more := by
  have room := within.room
  refine ⟨by omega, fun v mem => (within.placed v mem).widen before behind, within.apart, within.ordered, fun i mem => ?_⟩
  have inside := within.inside i mem
  omega

theorem Within.append (early : x.Within capture low middle) (late : y.Within capture middle high) :
    (x.append y).Within capture low high := by
  refine ⟨Nat.le_trans early.room late.room, fun v mem => ?_, ?_, ?_, fun i mem => ?_⟩
  · rcases List.mem_append.mp mem with first | second
    · exact (early.placed v first).widen (Nat.le_refl _) late.room
    · exact (late.placed v second).widen early.room (Nat.le_refl _)
  · refine List.pairwise_append.mpr ⟨early.apart, late.apart, fun v first w second => ?_⟩
    have ended := (early.placed v first).ends
    have begun := (late.placed w second).behind
    omega
  · refine List.pairwise_append.mpr ⟨early.ordered, late.ordered, fun i first j second => ?_⟩
    exact Nat.le_trans (early.inside i first).2 (late.inside j second).1
  · have := early.room
    have := late.room
    rcases List.mem_append.mp mem with first | second
    · have inside := early.inside i first
      omega
    · have inside := late.inside i second
      omega

end Within
end Finds

def entriesIn (capture : Bytes) (list : View) : Option Finds :=
  if list.length = 0 then some .nothing
  else
    match list.field? capture 3 3 with
    | none => none
    | some none => some (.issue (.certificates list.start))
    | some (some der) =>
      (entriesIn capture (list.after (3 + der.length))).map (Finds.certificate der).append
  termination_by list.length
  decreasing_by exact View.afterLess (by assumption) (by omega)

def certificatesIn (capture : Bytes) (payload : View) : Option Finds :=
  match payload.field? capture 3 3 with
  | none => none
  | some none => some (.issue (.certificates payload.start))
  | some (some list) => entriesIn capture list

def messageIn (capture : Bytes) (type : Bytes) (payload : View) : Option Finds :=
  if type = [certificateType] then certificatesIn capture payload else some .nothing

def fragmentIn (capture : Bytes) (fragment : View) : Option Finds :=
  if fragment.length = 0 then some .nothing
  else
    match fragment.field? capture 4 3 with
    | none => none
    | some none => some (.issue (.message fragment.start))
    | some (some payload) => do
      let type ← fragment.read? capture 0 1
      let here ← messageIn capture type payload
      let more ← fragmentIn capture (fragment.after (4 + payload.length))
      some (here.append more)
  termination_by fragment.length
  decreasing_by exact View.afterLess (by assumption) (by omega)

structure Share where
  version : UInt16
  fragment : View
  finds : Finds
  deriving DecidableEq, Repr

def recordIn (capture : Bytes) (record : View) : Option (Option Share) :=
  match record.field? capture 5 2 with
  | none => none
  | some none => some none
  | some (some fragment) => do
    let version ← record.read? capture 1 2
    let finds ← fragmentIn capture fragment
    some (some ⟨(Bytes.bigEndian version).toUInt16, fragment, finds⟩)

structure Survey where
  shares : List Share
  cut : Option Nat
  deriving DecidableEq, Repr

def walkIn (capture : Bytes) (rest : View) : Option Survey :=
  if rest.length = 0 then some ⟨[], none⟩
  else do
    let type ← rest.read? capture 0 1
    if type = [handshakeType] then
      match recordIn capture rest with
      | none => none
      | some none => some ⟨[], some rest.start⟩
      | some (some share) =>
        (walkIn capture (rest.after (5 + share.fragment.length))).map fun more => { more with shares := share :: more.shares }
    else walkIn capture (rest.after 1)
  termination_by rest.length
  decreasing_by all_goals exact View.afterLess (by assumption) (by omega)

section Entries
variable {capture : Bytes} {v : View}

theorem entryInPlace {a b c : UInt8} {der after : Bytes} (holds : v.Holds capture (a :: b :: c :: (der ++ after)))
    (size : Sized a b c der) :
    (Finds.certificate ⟨v.start + 3, der.length⟩).Within capture v.start (v.start + 3 + der.length) ∧
    (Finds.certificate ⟨v.start + 3, der.length⟩).contents capture 0 = ⟨[der].filter (fun der => !der.isEmpty), [], 0⟩ := by
  have prefixed : View.octets capture ⟨v.start, 3⟩ = [a, b, c] :=
    (View.Holds.frontPart (x := [a, b, c]) (y := der ++ after) holds).octets
  have body : View.octets capture ⟨v.start + 3, der.length⟩ = der :=
    (View.Holds.middlePart (x := [a, b, c]) (y := der) (z := after) holds).octets
  cases der with
  | nil => exact ⟨Finds.nothingWithin (by omega), rfl⟩
  | cons d der =>
    refine ⟨⟨by omega, fun w mem => ?_, List.pairwise_singleton _ _, .nil, List.forall_mem_nil _⟩, ?_⟩
    · cases List.mem_singleton.mp mem
      refine ⟨Nat.succ_pos _, Nat.le_refl _, Nat.le_refl _, a, b, c, prefixed, ?_⟩
      rw [body]
      exact size
    · exact congrArg (fun b => (⟨[b], [], 0⟩ : Extraction)) body

theorem entriesInBroken (filled : ¬ v.length = 0) (broken : v.field? capture 3 3 = some none) :
    entriesIn capture v = some (.issue (.certificates v.start)) := by
  rw [entriesIn, if_neg filled, broken]

theorem entriesInPlace {base : Nat} {list : Bytes} (holds : v.Holds capture list) (here : v.start = base) :
    ∃ finds, entriesIn capture v = some finds ∧ finds.Within capture v.start v.stop ∧ finds.contents capture 0 =
      ⟨(entries base list).1.filter (fun der => !der.isEmpty), (entries base list).2.toList, 0⟩ := by
  induction base, list using entries.induct generalizing v with
  | case1 base =>
    have empty : v.length = 0 := holds.lengthEq.symm
    refine ⟨.nothing, ?_, Finds.nothingWithin (Nat.le_add_right _ _), ?_⟩
    · rw [entriesIn, if_pos empty]
    · rw [entries]
      rfl
  | case2 base a b c rest short =>
    subst here
    rw [entriesInBroken (holds.positive (List.cons_ne_nil _ _)) (holds.fieldShort [] [a, b, c] short), entriesShort short]
    exact ⟨_, rfl, Finds.issueWithin rfl, rfl⟩
  | case3 base a b c rest der after cut more issue read ih =>
    subst here
    have filled := holds.positive (List.cons_ne_nil _ _)
    have cuts : v.Cuts capture 3 3 der after := holds.fieldCut [] [a, b, c] cut
    obtain ⟨rfl, size⟩ := cutSized.mp cut
    obtain ⟨finds, walked, within, contents⟩ := ih cuts.back (v.afterStart _ _)
    rw [v.afterStart, cuts.stop] at within
    obtain ⟨first, kept⟩ := entryInPlace holds size
    refine ⟨(Finds.certificate ⟨v.start + 3, der.length⟩).append finds, ?_, first.append within, ?_⟩
    · rw [entriesIn, if_neg filled, cuts.found]
      dsimp only
      rw [walked]
      rfl
    · rw [Finds.appendContents capture _ finds 0 0, kept, contents, entriesCut cut, Extraction.append, ← List.filter_append]
      rfl
  | case4 base list filled few =>
    subst here
    rw [entriesInBroken (holds.positive filled) (holds.fieldMissing (x := []) few), entriesFew filled few]
    exact ⟨_, rfl, Finds.issueWithin rfl, rfl⟩

end Entries

section Payload
variable {capture : Bytes} {v : View}

theorem certificatesInBroken (broken : v.field? capture 3 3 = some none) :
    certificatesIn capture v = some (.issue (.certificates v.start)) := by
  rw [certificatesIn, broken]

theorem certificatesInPlace {payload : Bytes} (holds : v.Holds capture payload) :
    ∃ finds, certificatesIn capture v = some finds ∧ finds.Within capture v.start v.stop ∧ finds.contents capture 0 =
      ⟨(certificates v.start payload).1, (certificates v.start payload).2.toList, 0⟩ := by
  unfold certificates
  split
  · rename_i a b c rest
    split
    · rename_i short
      rw [certificatesInBroken (holds.fieldShort [] [a, b, c] short)]
      exact ⟨_, rfl, Finds.issueWithin rfl, rfl⟩
    · rename_i list trailing cut
      have cuts : v.Cuts capture 3 3 list trailing := holds.fieldCut [] [a, b, c] cut
      obtain ⟨finds, walked, within, contents⟩ := entriesInPlace cuts.front rfl
      refine ⟨finds, ?_, within.widen (Nat.le_add_right _ _) cuts.inside, contents⟩
      rw [certificatesIn, cuts.found]
      exact walked
  · rename_i few
    rw [certificatesInBroken (holds.fieldMissing (x := []) few)]
    exact ⟨_, rfl, Finds.issueWithin rfl, rfl⟩

theorem messageInPlace {payload : Bytes} (holds : v.Holds capture payload) (t : UInt8) :
    ∃ finds, messageIn capture [t] v = some finds ∧ finds.Within capture v.start v.stop ∧
      finds.contents capture 0 = Extraction.ofMessage ⟨v.start, t, payload⟩ := by
  by_cases certificate : t = certificateType
  · obtain ⟨finds, walked, within, contents⟩ := certificatesInPlace holds
    refine ⟨finds, ?_, within, ?_⟩
    · rw [messageIn, if_pos (by rw [certificate]), walked]
    · rw [Extraction.ofMessage, if_pos certificate, contents]
  · refine ⟨.nothing, ?_, Finds.nothingWithin (Nat.le_add_right _ _), ?_⟩
    · rw [messageIn, if_neg (fun same => certificate (List.cons.inj same).1)]
    · rw [Extraction.ofMessage, if_neg certificate]
      rfl

end Payload

section Fragment
variable {capture : Bytes} {v : View}

theorem fragmentInBroken (filled : ¬ v.length = 0) (broken : v.field? capture 4 3 = some none) :
    fragmentIn capture v = some (.issue (.message v.start)) := by
  rw [fragmentIn, if_neg filled, broken]

theorem fragmentInPlace {base : Nat} {fragment : Bytes} (holds : v.Holds capture fragment) (here : v.start = base) :
    ∃ finds, fragmentIn capture v = some finds ∧ finds.Within capture v.start v.stop ∧
      finds.contents capture 1 = Extraction.ofFragment base fragment := by
  induction base, fragment using messages.induct generalizing v with
  | case1 base =>
    have empty : v.length = 0 := holds.lengthEq.symm
    refine ⟨.nothing, ?_, Finds.nothingWithin (Nat.le_add_right _ _), ?_⟩
    · rw [fragmentIn, if_pos empty]
    · rw [Extraction.fragmentNil]
      rfl
  | case2 base t a b c rest short =>
    subst here
    rw [fragmentInBroken (holds.positive (List.cons_ne_nil _ _)) (holds.fieldShort [t] [a, b, c] short),
      Extraction.fragmentDamaged (messagesShort short)]
    exact ⟨_, rfl, Finds.issueWithin rfl, rfl⟩
  | case3 base t a b c rest payload after cut more issue read ih =>
    subst here
    have filled := holds.positive (List.cons_ne_nil _ _)
    have cuts : v.Cuts capture 4 3 payload after := holds.fieldCut [t] [a, b, c] cut
    obtain ⟨first, message, found, kept⟩ := messageInPlace cuts.front t
    obtain ⟨finds, walked, within, contents⟩ := ih cuts.back (v.afterStart _ _)
    rw [v.afterStart, cuts.stop] at within
    refine ⟨first.append finds, ?_, (found.widen (Nat.le_add_right _ _) (Nat.le_refl _)).append within, ?_⟩
    · rw [fragmentIn, if_neg filled, cuts.found]
      dsimp only
      rw [holds.firstRead, walked]
      dsimp only [bind, Option.bind]
      rw [message]
    · rw [Extraction.fragmentCut cut, ← kept, ← contents, ← Finds.appendContents]
  | case4 base fragment filled few =>
    subst here
    obtain ⟨t, b, rfl⟩ := List.exists_cons_of_ne_nil filled
    have missing : v.field? capture 4 3 = some none :=
      holds.fieldMissing (x := [t]) fun p q r rest same => few t p q r rest (congrArg (t :: ·) same)
    rw [fragmentInBroken (holds.positive filled) missing, Extraction.fragmentDamaged (messagesFew filled few _)]
    exact ⟨_, rfl, Finds.issueWithin rfl, rfl⟩

end Fragment

section AtEnd
variable {kind : Nat → Issue}

def AtEnd (kind : Nat → Issue) (issues : List Issue) : Prop := ∀ offset, kind offset ∉ issues.dropLast

theorem atEndAppend {issues more : List Issue} (free : ∀ offset, kind offset ∉ issues) (back : AtEnd kind more) :
    AtEnd kind (issues ++ more) := by
  intro offset mem
  rw [List.dropLast_append] at mem
  split at mem
  · exact free offset (List.dropLast_subset _ mem)
  · rcases List.mem_append.mp mem with front | last
    · exact free offset front
    · exact back offset last

theorem atEndSingle (issue : Issue) : AtEnd kind [issue] := fun _ => List.not_mem_nil

namespace Extraction

theorem messageAtEnd (base : Nat) (fragment : Bytes) : AtEnd .message (ofFragment base fragment).issues := by
  induction base, fragment using messages.induct with
  | case1 base =>
    rw [fragmentNil]
    exact fun _ => List.not_mem_nil
  | case2 base t a b c rest short =>
    rw [fragmentDamaged (messagesShort short)]
    exact atEndSingle _
  | case3 base t a b c rest payload after cut more issue read ih =>
    rw [fragmentCut cut]
    refine atEndAppend (fun offset mem => ?_) ih
    obtain ⟨_, other⟩ := messageDamage mem
    contradiction
  | case4 base fragment filled few =>
    rw [fragmentDamaged (messagesFew filled few base)]
    exact atEndSingle _

theorem recordAtEnd (offset : Nat) (b : Bytes) : AtEnd .record (walk offset b).issues := by
  induction offset, b using walk.induct with
  | case1 offset =>
    rw [walk]
    exact fun _ => List.not_mem_nil
  | case2 offset rest short =>
    rw [walkTruncated short]
    exact atEndSingle _
  | case3 offset rest r after read ih =>
    rw [walkRecord read]
    exact atEndAppend (fragmentWhole _ _) ih
  | case4 offset t rest different ih =>
    rw [walkStray different]
    exact ih

end Extraction
end AtEnd

structure Share.InPlace (capture : Bytes) (share : Share) : Prop where
  header : 5 ≤ share.fragment.start
  inside : share.fragment.stop ≤ capture.length
  record : recordAt capture (share.fragment.start - 5) =
    .ok ⟨handshakeType, share.version, share.fragment.octets capture⟩
  within : share.finds.Within capture share.fragment.start share.fragment.stop
  messageLast : AtEnd .message share.finds.issues

namespace Survey

def finds (survey : Survey) : Finds :=
  ⟨survey.shares.flatMap (·.finds.certificates),
    survey.shares.flatMap (·.finds.issues) ++ (survey.cut.map .record).toList⟩

def contents (capture : Bytes) (survey : Survey) : Extraction := survey.finds.contents capture survey.shares.length

/- What there is from `low` to the end of the capture. Every share is of a record that can be read there,
and each record begins behind the one before. -/
structure InPlace (capture : Bytes) (low : Nat) (survey : Survey) : Prop where
  within : survey.finds.Within capture low capture.length
  shares : ∀ share ∈ survey.shares, share.InPlace capture ∧ low + 5 ≤ share.fragment.start
  spaced : survey.shares.Pairwise fun s t => s.fragment.stop + 5 ≤ t.fragment.start

theorem findsCons (share : Share) (more : Survey) :
    finds { more with shares := share :: more.shares } = share.finds.append more.finds := by
  simp only [finds, Finds.append, List.flatMap_cons, List.append_assoc]

theorem InPlace.widen {capture : Bytes} {less low : Nat} {survey : Survey} (sound : survey.InPlace capture low)
    (before : less ≤ low) : survey.InPlace capture less := by
  refine ⟨sound.within.widen before (Nat.le_refl _), fun share mem => ?_, sound.spaced⟩
  obtain ⟨alone, far⟩ := sound.shares share mem
  exact ⟨alone, by omega⟩

theorem InPlace.cons {capture : Bytes} {low : Nat} {share : Share} {more : Survey} (first : share.InPlace capture)
    (begins : low + 5 ≤ share.fragment.start) (later : more.InPlace capture share.fragment.stop) :
    InPlace capture low { more with shares := share :: more.shares } := by
  refine ⟨?_, ?_, List.pairwise_cons.mpr ⟨fun t mem => (later.shares t mem).2, later.spaced⟩⟩
  · rw [findsCons]
    exact (first.within.widen (by omega) (Nat.le_refl _)).append later.within
  · have room : share.fragment.start ≤ share.fragment.stop := Nat.le_add_right _ _
    intro t mem
    rcases List.mem_cons.mp mem with rfl | behind
    · exact ⟨first, begins⟩
    · obtain ⟨sound, far⟩ := later.shares t behind
      exact ⟨sound, by omega⟩

end Survey

section Walk
variable {capture : Bytes} {v : View}

theorem recordInShort {t : UInt8} {rest : Bytes} (holds : v.Holds capture (t :: rest)) (short : readRecord? (t :: rest) = none) :
    recordIn capture v = some none := by
  match rest with
  | a :: b :: l :: m :: bytes =>
    have broken : v.field? capture 5 2 = some none := holds.fieldShort [t, a, b] [l, m] (Option.map_eq_none_iff.mp short)
    rw [recordIn, broken]
  | [] | [_] | [_, _] | [_, _, _] =>
    have fewer : v.length < 5 := by simp [← holds.lengthEq]
    rw [recordIn, View.fieldFew fewer 2]

theorem recordInPlace {rest after : Bytes} {r : Record} (holds : v.Holds capture (handshakeType :: rest))
    (ends : v.stop = capture.length) (read : readRecord? (handshakeType :: rest) = some (r, after)) :
    ∃ finds, recordIn capture v = some (some ⟨r.version, ⟨v.start + 5, r.fragment.length⟩, finds⟩) ∧
      Share.InPlace capture ⟨r.version, ⟨v.start + 5, r.fragment.length⟩, finds⟩ ∧
      finds.contents capture 1 = Extraction.ofFragment (v.start + 5) r.fragment ∧
      v.Cuts capture 5 2 r.fragment after := by
  match rest with
  | a :: b :: l :: m :: bytes =>
    obtain ⟨⟨fragment, after⟩, cut, same⟩ := Option.map_eq_some_iff.mp read
    cases same
    have cuts : v.Cuts capture 5 2 fragment after := holds.fieldCut [handshakeType, a, b] [l, m] cut
    have version : v.read? capture 1 2 = some [a, b] := View.Holds.partRead (x := [handshakeType]) (y := [a, b]) holds
    obtain ⟨finds, walked, within, contents⟩ := fragmentInPlace cuts.front rfl
    refine ⟨finds, ?_, ⟨Nat.le_add_left _ _, ?_, ?_, within, ?_⟩, contents, cuts⟩
    · rw [recordIn, cuts.found]
      dsimp only
      rw [version, walked]
      rfl
    · rw [← ends]
      exact cuts.inside
    · dsimp only
      rw [recordAt, Nat.add_sub_cancel, holds.toEnd ends, read, cuts.front.octets]
    · have last := Extraction.messageAtEnd (v.start + 5) fragment
      rw [← contents] at last
      exact last

theorem walkInPlace {offset : Nat} {b : Bytes} (holds : v.Holds capture b) (here : v.start = offset)
    (ends : v.stop = capture.length) : ∃ survey, walkIn capture v = some survey ∧ survey.InPlace capture v.start ∧
      survey.contents capture = Extraction.walk offset b := by
  induction offset, b using Extraction.walk.induct generalizing v with
  | case1 offset =>
    have empty : v.length = 0 := holds.lengthEq.symm
    refine ⟨⟨[], none⟩, ?_, ⟨Finds.nothingWithin ?_, List.forall_mem_nil _, .nil⟩, ?_⟩
    · rw [walkIn, if_pos empty]
    · rw [← ends]
      exact Nat.le_add_right _ _
    · rw [Extraction.walk]
      rfl
  | case2 offset rest short =>
    subst here
    refine ⟨⟨[], some v.start⟩, ?_, ⟨ends ▸ Finds.issueWithin rfl, List.forall_mem_nil _, .nil⟩, ?_⟩
    · rw [walkIn, if_neg (holds.positive (List.cons_ne_nil _ _)), holds.firstRead]
      dsimp only [bind, Option.bind]
      rw [if_pos rfl, recordInShort holds short]
    · rw [Extraction.walkTruncated short]
      rfl
  | case3 offset rest r after read ih =>
    subst here
    obtain ⟨finds, first, sound, contents, cuts⟩ := recordInPlace holds ends read
    obtain ⟨more, walked, later, remaining⟩ := ih cuts.back (v.afterStart _ _) (cuts.stop.trans ends)
    rw [v.afterStart] at later
    refine ⟨{ more with shares := _ :: more.shares }, ?_, .cons sound (Nat.le_refl _) later, ?_⟩
    · rw [walkIn, if_neg (holds.positive (List.cons_ne_nil _ _)), holds.firstRead]
      dsimp only [bind, Option.bind]
      rw [if_pos rfl, first]
      dsimp only
      rw [walked]
      rfl
    · rw [Extraction.walkRecord read, ← contents, ← remaining, Survey.contents, Survey.contents, ← Finds.appendContents,
        Survey.findsCons, List.length_cons, Nat.add_comm more.shares.length]
  | case4 offset t rest different ih =>
    subst here
    obtain ⟨back, stop⟩ := View.Holds.backPart (x := [t]) holds rfl
    obtain ⟨survey, walked, sound, contents⟩ := ih back rfl (stop.trans ends)
    refine ⟨survey, ?_, sound.widen (Nat.le_add_right _ _), ?_⟩
    · rw [walkIn, if_neg (holds.positive (List.cons_ne_nil _ _)), holds.firstRead]
      dsimp only [bind, Option.bind]
      rw [if_neg fun same => different (List.cons.inj same).1]
      exact walked
    · rw [Extraction.walkStray different]
      exact contents

end Walk

theorem extractInPlace (capture : Bytes) : ∃ survey, walkIn capture ⟨0, capture.length⟩ = some survey ∧
    extract capture = survey.contents capture ∧ survey.InPlace capture 0 ∧ AtEnd .record (extract capture).issues := by
  have holds : View.Holds capture ⟨0, capture.length⟩ capture := ⟨Nat.le_of_eq (Nat.zero_add _), List.take_length⟩
  obtain ⟨survey, walked, sound, contents⟩ := walkInPlace holds rfl (Nat.zero_add _)
  exact ⟨survey, walked, contents.symm, sound, Extraction.recordAtEnd 0 capture⟩

example : walkIn [22, 3, 3, 0, 15, 11, 0, 0, 7, 0, 0, 4, 0, 0, 1, 7, 11, 0, 0, 0] ⟨0, 20⟩ =
    some ⟨[⟨0x0303, ⟨5, 15⟩, ⟨[⟨15, 1⟩], [.certificates 20]⟩⟩], none⟩ := by decide +kernel

end TlsCensus.Capture
