import TlsCensus.Proofs.CaptureGrammar
import Mathlib.Algebra.Ring.Nat

/-! Where damage ends a list of entries or messages. What is cut out is the longest front that
whole items make up; the damage is reported at its end, and nothing comes after it. A certificate
message whose list is cut off gives nothing at all. -/
namespace TlsCensus.Capture

inductive MessageList : Nat → Bytes → List Message → Prop where
  | nil (base) : MessageList base [] []
  | cons {base t a b c payload rest more} (size : Sized a b c payload)
      (tail : MessageList (base + 4 + payload.length) rest more) :
      MessageList base (t :: a :: b :: c :: (payload ++ rest)) (⟨base + 4, t, payload⟩ :: more)

structure LongestFront (Made : Bytes → Prop) (list front : Bytes) : Prop where
  begins : front <+: list
  made : Made front
  longest : ∀ other, other <+: list → Made other → other.length ≤ front.length

/- Whole items are read the same whatever follows them, and their sizes add up to the front. So a
longer front would hold more items than are read. -/
theorem longestRead {α : Type} {Made : Bytes → List α → Prop} {size : α → Nat} (read : Bytes → List α)
    (goesOn : ∀ {front items}, Made front items → ∀ rest, items <+: read (front ++ rest))
    (sizes : ∀ {front items}, Made front items → front.length = (items.map size).sum)
    {front rest : Bytes} {items : List α} (made : Made front items) (all : read (front ++ rest) = items) :
    LongestFront (fun b => ∃ items, Made b items) (front ++ rest) front := by
  refine ⟨List.prefix_append _ _, ⟨items, made⟩, ?_⟩
  rintro other ⟨beyond, whole⟩ ⟨found, other⟩
  have early := goesOn other beyond
  rw [whole, all] at early
  obtain ⟨later, rfl⟩ := early
  rw [sizes other, sizes made, List.map_append, List.sum_append]
  exact Nat.le_add_right _ _

theorem damageSaid {whole : Prop} [Decidable whole] {i j : Issue} (said : some i = if whole then none else some j) :
    ¬ whole ∧ i = j := by
  split at said
  · contradiction
  · rename_i left
    exact ⟨left, Option.some.inj said⟩

section Entries

theorem entriesSizes {front : Bytes} {ders : List Bytes} (h : EntryList front ders) :
    front.length = (ders.map fun der => 3 + der.length).sum := by
  induction h with
  | nil => rfl
  | cons size tail ih =>
    simp only [List.length_cons, List.length_append, List.map_cons, List.sum_cons, ih]
    omega

theorem entriesStop (base : Nat) (list : Bytes) : ∃ front rest ders, list = front ++ rest ∧ EntryList front ders ∧
    entries base list = (ders, if rest = [] then none else some (.certificates (base + front.length))) := by
  induction base, list using entries.induct with
  | case1 base => exact ⟨[], [], [], rfl, .nil, by rw [entries, if_pos rfl]⟩
  | case2 base a b c rest short =>
    exact ⟨[], _, [], rfl, .nil, by rw [entriesShort short, if_neg (List.cons_ne_nil _ _)]; rfl⟩
  | case3 base a b c rest der after cut more issue read ih =>
    obtain ⟨front, left, ders, rfl, made, stopped⟩ := ih
    obtain ⟨rfl, size⟩ := cutSized.mp cut
    refine ⟨a :: b :: c :: (der ++ front), left, der :: ders, by simp, .cons size made, ?_⟩
    have stop : base + 3 + der.length + front.length = base + (a :: b :: c :: (der ++ front)).length := by
      simp only [List.length_cons, List.length_append]
      omega
    rw [entriesCut cut, stopped, stop]
  | case4 base list filled few =>
    exact ⟨[], _, [], rfl, .nil, by rw [entriesFew filled few, if_neg filled]; rfl⟩

theorem entriesLongest (base : Nat) (list : Bytes) : ∃ front ders,
    LongestFront (fun b => ∃ ders, EntryList b ders) list front ∧ EntryList front ders ∧
    entries base list = (ders, if front.length = list.length then none else some (.certificates (base + front.length))) := by
  obtain ⟨front, rest, ders, rfl, made, stopped⟩ := entriesStop base list
  refine ⟨front, ders, ?_, made, ?_⟩
  · refine longestRead (fun b => (entries base b).1) ?_ entriesSizes made (by rw [stopped])
    intro front ders whole rest
    rw [entriesPast whole]
    exact List.prefix_append _ _
  · simpa using stopped

end Entries

section Payload
variable {payload : Bytes}

def declared (payload : Bytes) : Bytes := (payload.drop 3).take (Bytes.bigEndian (payload.take 3))

def CutOff (payload : Bytes) : Prop :=
  payload.length < 3 ∨ payload.length < 3 + Bytes.bigEndian (payload.take 3)

theorem certificatesCutOff (short : CutOff payload) (base : Nat) :
    certificates base payload = ([], some (.certificates base)) := by
  unfold certificates
  split
  · rename_i a b c rest
    have few : rest.length < uint24 a b c := by
      simp only [CutOff, List.length_cons] at short
      change rest.length + 1 + 1 + 1 < 3 ∨ rest.length + 1 + 1 + 1 < 3 + uint24 a b c at short
      omega
    have missing : Bytes.cut? (uint24 a b c) rest = none := by
      rw [Bytes.cut?, if_neg]
      rw [List.length_take]
      omega
    rw [missing]
  · rfl

theorem certificatesDeclared (long : ¬ CutOff payload) (base : Nat) : certificates base payload =
    ((entries (base + 3) (declared payload)).1.filter (· ≠ []), (entries (base + 3) (declared payload)).2) := by
  simp only [CutOff, not_or, Nat.not_lt] at long
  obtain ⟨three, total⟩ := long
  match payload, three with
  | a :: b :: c :: rest, _ =>
    have fits : Bytes.cut? (uint24 a b c) rest = some (declared (a :: b :: c :: rest), rest.drop (uint24 a b c)) := by
      refine cutOk.mpr ⟨(List.take_append_drop _ _).symm, ?_⟩
      change 3 + uint24 a b c ≤ rest.length + 1 + 1 + 1 at total
      change (rest.take (uint24 a b c)).length = uint24 a b c
      rw [List.length_take]
      omega
    simp only [certificates, fits]
    congr 1
    exact List.filter_congr fun der _ => by cases der <;> rfl

theorem certificatesLongest (long : ¬ CutOff payload) (base : Nat) : ∃ front ders,
    LongestFront (fun b => ∃ ders, EntryList b ders) (declared payload) front ∧ EntryList front ders ∧
    certificates base payload = (ders.filter (· ≠ []),
      if front.length = (declared payload).length then none else some (.certificates (base + 3 + front.length))) := by
  obtain ⟨front, ders, longest, made, stopped⟩ := entriesLongest (base + 3) (declared payload)
  exact ⟨front, ders, longest, made, by rw [certificatesDeclared long, stopped]⟩

theorem cutOffIff (base : Nat) : certificates base payload = ([], some (.certificates base)) ↔ CutOff payload := by
  refine ⟨fun dropped => ?_, fun short => certificatesCutOff short base⟩
  by_cases short : CutOff payload
  · exact short
  · obtain ⟨front, ders, -, -, stopped⟩ := certificatesLongest short base
    obtain ⟨-, same⟩ := damageSaid (congrArg Prod.snd (dropped.symm.trans stopped))
    have further := Issue.certificates.inj same
    omega

end Payload

section Messages

theorem messagesPast {base : Nat} {front : Bytes} {found : List Message} (h : MessageList base front found) (rest : Bytes) :
    messages base (front ++ rest) =
      (found ++ (messages (base + front.length) rest).1, (messages (base + front.length) rest).2) := by
  induction h with
  | nil base => rfl
  | @cons base t a b c payload tail more size _ ih =>
    have stop : base + 4 + payload.length + tail.length = base + (t :: a :: b :: c :: (payload ++ tail)).length := by
      simp only [List.length_cons, List.length_append]
      omega
    simp only [List.cons_append, List.append_assoc]
    rw [messagesCut (cutSized.mpr ⟨rfl, size⟩), ih, stop]

theorem messagesSizes {base : Nat} {front : Bytes} {found : List Message} (h : MessageList base front found) :
    front.length = (found.map fun m => 4 + m.payload.length).sum := by
  induction h with
  | nil base => rfl
  | cons size tail ih =>
    simp only [List.length_cons, List.length_append, List.map_cons, List.sum_cons, ih]
    omega

theorem messagesStop (base : Nat) (fragment : Bytes) : ∃ front rest found, fragment = front ++ rest ∧
    MessageList base front found ∧
    messages base fragment = (found, if rest = [] then none else some (.message (base + front.length))) := by
  induction base, fragment using messages.induct with
  | case1 base => exact ⟨[], [], [], rfl, .nil base, by rw [messages, if_pos rfl]⟩
  | case2 base t a b c rest short =>
    exact ⟨[], _, [], rfl, .nil base, by rw [messagesShort short, if_neg (List.cons_ne_nil _ _)]; rfl⟩
  | case3 base t a b c rest payload after cut more issue read ih =>
    obtain ⟨front, left, found, rfl, made, stopped⟩ := ih
    obtain ⟨rfl, size⟩ := cutSized.mp cut
    refine ⟨t :: a :: b :: c :: (payload ++ front), left, _ :: found, by simp, .cons size made, ?_⟩
    have stop : base + 4 + payload.length + front.length = base + (t :: a :: b :: c :: (payload ++ front)).length := by
      simp only [List.length_cons, List.length_append]
      omega
    rw [messagesCut cut, stopped, stop]
  | case4 base fragment filled few =>
    exact ⟨[], _, [], rfl, .nil base, by rw [messagesFew filled few, if_neg filled]; rfl⟩

theorem messagesLongest (base : Nat) (fragment : Bytes) : ∃ front found,
    LongestFront (fun b => ∃ found, MessageList base b found) fragment front ∧ MessageList base front found ∧
    messages base fragment = (found, if front.length = fragment.length then none else some (.message (base + front.length))) := by
  obtain ⟨front, rest, found, rfl, made, stopped⟩ := messagesStop base fragment
  refine ⟨front, found, ?_, made, ?_⟩
  · refine longestRead (fun b => (messages base b).1) ?_ messagesSizes made (by rw [stopped])
    intro front found whole rest
    rw [messagesPast whole]
    exact List.prefix_append _ _
  · simpa using stopped

end Messages

structure Cursor where
  fragment : Bytes
  base : Nat
  place : Nat
  done : Bool
  deriving DecidableEq, Repr

namespace Cursor

def new (base : Nat) (fragment : Bytes) : Cursor := ⟨fragment, base, 0, false⟩

def damaged (c : Cursor) : Option (Except Issue Message) × Cursor :=
  (some (.error (.message (c.base + c.place))), { c with done := true })

def take (c : Cursor) : Bytes → Option (Except Issue Message) × Cursor
  | t :: a :: b :: d :: rest =>
    match Bytes.cut? (uint24 a b d) rest with
    | none => c.damaged
    | some (payload, _) =>
      (some (.ok ⟨c.base + c.place + 4, t, payload⟩), { c with place := c.place + 4 + payload.length })
  | _ => c.damaged

def next (c : Cursor) : Option (Except Issue Message) × Cursor :=
  if c.done ∨ c.fragment.length ≤ c.place then (none, c) else c.take (c.fragment.drop c.place)

def answer : Nat → Cursor → Option (Except Issue Message)
  | 0, c => c.next.1
  | n + 1, c => c.next.2.answer n

variable {c : Cursor}

theorem answerOver (ended : c.next = (none, c)) (n : Nat) : c.answer n = none := by
  induction n with
  | zero => rw [answer, ended]
  | succ n ih => rw [answer, ended, ih]

theorem answerDamaged (damaged : c.next = c.damaged) (n : Nat) :
    c.answer n = [Except.error (Issue.message (c.base + c.place))][n]? := by
  cases n with
  | zero => rw [answer, damaged]; rfl
  | succ n =>
    rw [answer, damaged]
    exact answerOver (by simp [next, Cursor.damaged]) n

theorem nextTakes {rest : Bytes} (stands : c.fragment.drop c.place = rest) (on : c.done = false)
    (filled : rest = [] → False) : c.next = c.take rest := by
  have reading : ¬ (c.done = true ∨ c.fragment.length ≤ c.place) := by
    rw [← stands, List.drop_eq_nil_iff] at filled
    simpa [on] using filled
  rw [next, if_neg reading, stands]

theorem takeFew {rest : Bytes} (few : ∀ t a b d more, rest = t :: a :: b :: d :: more → False) : c.take rest = c.damaged := by
  rw [take]
  exact few

theorem answersRest {base : Nat} {rest : Bytes} (stands : c.fragment.drop c.place = rest) (here : c.base + c.place = base)
    (on : c.done = false) (n : Nat) :
    c.answer n = ((messages base rest).1.map Except.ok ++ (messages base rest).2.toList.map Except.error)[n]? := by
  induction base, rest using messages.induct generalizing c n with
  | case1 base =>
    rw [messages]
    refine answerOver ?_ n
    rw [next, if_pos (.inr (List.drop_eq_nil_iff.mp stands))]
  | case2 base t a b d rest short =>
    have damaged := nextTakes stands on (List.cons_ne_nil _ _)
    rw [take, short] at damaged
    rw [answerDamaged damaged, here, messagesShort short]
    rfl
  | case3 base t a b d rest payload after cut more issue read ih =>
    have moved := nextTakes stands on (List.cons_ne_nil _ _)
    simp only [take, cut] at moved
    rw [messagesCut cut]
    cases n with
    | zero =>
      rw [answer, moved, here]
      rfl
    | succ n =>
      obtain ⟨rfl, size⟩ := cutSized.mp cut
      have further : c.fragment.drop (c.place + 4 + payload.length) = after := by
        rw [← List.drop_drop, ← List.drop_drop, stands]
        exact List.drop_left
      rw [answer, moved]
      exact ih (c := { c with place := c.place + 4 + payload.length }) further (by dsimp only; omega) on n
  | case4 base rest filled few =>
    have damaged := nextTakes stands on filled
    rw [takeFew few] at damaged
    rw [answerDamaged damaged, here, messagesFew filled few]
    rfl

theorem newAnswers (base : Nat) (fragment : Bytes) (n : Nat) : (new base fragment).answer n =
    ((messages base fragment).1.map Except.ok ++ (messages base fragment).2.toList.map Except.error)[n]? :=
  answersRest rfl rfl rfl n

end Cursor

theorem damageEndsLongestFront (base : Nat) (payload fragment : Bytes) :
    (certificates base payload = ([], some (.certificates base)) ↔ CutOff payload) ∧
    (¬ CutOff payload → ∃ front ders,
      LongestFront (fun b => ∃ ders, EntryList b ders) (declared payload) front ∧ EntryList front ders ∧
      certificates base payload = (ders.filter (· ≠ []),
        if front.length = (declared payload).length then none else some (.certificates (base + 3 + front.length)))) ∧
    ∃ front found, LongestFront (fun b => ∃ found, MessageList base b found) fragment front ∧
      MessageList base front found ∧
      messages base fragment =
        (found, if front.length = fragment.length then none else some (.message (base + front.length))) ∧
      ∀ n, (Cursor.new base fragment).answer n = (found.map Except.ok ++
        if front.length = fragment.length then [] else [.error (.message (base + front.length))])[n]? := by
  refine ⟨cutOffIff base, fun long => certificatesLongest long base, ?_⟩
  obtain ⟨front, found, longest, made, stopped⟩ := messagesLongest base fragment
  refine ⟨front, found, longest, made, stopped, fun n => ?_⟩
  rw [Cursor.newAnswers, stopped]
  split <;> rfl

theorem emptyEntryBeforeDamage :
    let payload := [0, 0, 9, 0, 0, 1, 7, 0, 0, 0, 0, 9]
    let fragment := [2, 0, 0, 1, 5, 11, 0, 0]
    ¬ CutOff payload ∧ certificates 9 payload = ([[7]], some (.certificates 19)) ∧
    (∃ front, LongestFront (fun b => ∃ ders, EntryList b ders) (declared payload) front ∧ front.length = 7) ∧
    (Cursor.new 5 fragment).answer 0 = some (.ok ⟨9, 2, [5]⟩) ∧
    (Cursor.new 5 fragment).answer 1 = some (.error (.message 10)) ∧
    ∀ n, (Cursor.new 5 fragment).answer (n + 2) = none := by
  intro payload fragment
  have long : ¬ CutOff payload := by
    rw [CutOff]
    decide
  have dropped : certificates 9 payload = ([[7]], some (.certificates 19)) := by decide +kernel
  have cut : messages 5 fragment = ([⟨9, 2, [5]⟩], some (.message 10)) := by decide +kernel
  obtain ⟨-, kept, -⟩ := damageEndsLongestFront 9 payload fragment
  obtain ⟨-, -, front, found, -, -, stopped, answers⟩ := damageEndsLongestFront 5 payload fragment
  refine ⟨long, dropped, ?_, ?_⟩
  · obtain ⟨front, ders, longest, -, ended⟩ := kept long
    refine ⟨front, longest, ?_⟩
    obtain ⟨-, same⟩ := damageSaid (congrArg Prod.snd (dropped.symm.trans ended))
    have here := Issue.certificates.inj same
    omega
  · rw [cut] at stopped
    obtain ⟨rfl, issue⟩ := Prod.mk.inj stopped
    obtain ⟨left, same⟩ := damageSaid issue
    rw [if_neg left, ← same] at answers
    exact ⟨answers 0, answers 1, fun n => answers (n + 2)⟩

end TlsCensus.Capture
