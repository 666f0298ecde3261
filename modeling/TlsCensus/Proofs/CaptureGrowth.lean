import TlsCensus.Proofs.CaptureGrammar

/-! A capture that goes on. The walk takes up where it stood: what was cut out stays, and the
octets behind are walked as they would be alone, only further on. A record whose rest was
missing is the one thing that may turn out otherwise. -/
namespace TlsCensus.Capture

def Issue.behind (n : Nat) : Issue → Issue
  | .record offset => .record (offset + n)
  | .message offset => .message (offset + n)
  | .certificates offset => .certificates (offset + n)

def standing (issues : List Issue) : List Issue :=
  match issues.getLast? with
  | some (.record _) => issues.dropLast
  | _ => issues

def Whole (issues : List Issue) : Prop := ∀ offset, .record offset ∉ issues

section Standing
variable {issues more : List Issue}

theorem standingWhole (whole : Whole issues) : standing issues = issues := by
  unfold standing
  split
  · rename_i offset last
    exact absurd (List.mem_of_getLast? last) (whole offset)
  · rfl

theorem standingCut (offset : Nat) : standing (issues ++ [.record offset]) = issues := by
  simp [standing]

theorem wholeAppend : Whole (issues ++ more) ↔ Whole issues ∧ Whole more := by
  simp only [Whole, List.mem_append, not_or]
  exact forall_and

theorem cutNotWhole (offset : Nat) : ¬ Whole (issues ++ [.record offset]) :=
  fun whole => whole offset (List.mem_append_right _ List.mem_cons_self)

end Standing

namespace Extraction

def behind (n : Nat) (x : Extraction) : Extraction := ⟨x.certificates, x.issues.map (·.behind n), x.records⟩

theorem appendBehind (n : Nat) (x y : Extraction) : (append x y).behind n = append (x.behind n) (y.behind n) := by
  simp only [behind, append, List.map_append]

theorem appendAssoc (x y z : Extraction) : append (append x y) z = append x (append y z) := by
  simp only [append, List.append_assoc, Nat.add_assoc]

theorem emptyAppend (x : Extraction) : append empty x = x := by
  simp [append, empty]

end Extraction

section Behind

theorem entriesBehind (n base : Nat) (list : Bytes) :
    entries (base + n) list = ((entries base list).1, (entries base list).2.map (·.behind n)) := by
  induction base, list using entries.induct with
  | case1 base =>
    rw [entries, entries]
    rfl
  | case2 base a b c rest short =>
    rw [entriesShort short, entriesShort short]
    rfl
  | case3 base a b c rest der after cut more issue read ih =>
    rw [entriesCut cut, entriesCut cut, Nat.add_right_comm base n 3, Nat.add_right_comm _ n, ih]
  | case4 base list filled few =>
    rw [entriesFew filled few, entriesFew filled few]
    rfl

theorem certificatesBehind (n base : Nat) (payload : Bytes) :
    certificates (base + n) payload = ((certificates base payload).1, (certificates base payload).2.map (·.behind n)) := by
  unfold certificates
  split
  · split
    · rfl
    · rw [Nat.add_right_comm, entriesBehind]
  · rfl

namespace Extraction

theorem messageBehind (n base : Nat) (t : UInt8) (payload : Bytes) :
    ofMessage ⟨base + n, t, payload⟩ = (ofMessage ⟨base, t, payload⟩).behind n := by
  unfold ofMessage
  split
  · rw [certificatesBehind]
    dsimp only
    cases (Capture.certificates base payload).2 <;> rfl
  · rfl

theorem fragmentBehind (n base : Nat) (fragment : Bytes) :
    ofFragment (base + n) fragment = (ofFragment base fragment).behind n := by
  induction base, fragment using messages.induct with
  | case1 base =>
    rw [fragmentNil, fragmentNil]
    rfl
  | case2 base t a b c rest short =>
    rw [fragmentDamaged (messagesShort short), fragmentDamaged (messagesShort short)]
    rfl
  | case3 base t a b c rest payload after cut more issue read ih =>
    rw [fragmentCut cut, fragmentCut cut, Nat.add_right_comm base n 4, Nat.add_right_comm _ n, ih, messageBehind,
      appendBehind]
  | case4 base fragment filled few =>
    rw [fragmentDamaged (messagesFew filled few _), fragmentDamaged (messagesFew filled few _)]
    rfl

theorem walkBehind (n offset : Nat) (b : Bytes) : walk (offset + n) b = (walk offset b).behind n := by
  induction offset, b using walk.induct with
  | case1 offset =>
    rw [walk, walk]
    rfl
  | case2 offset rest short =>
    rw [walkTruncated short, walkTruncated short]
    rfl
  | case3 offset rest r after read ih =>
    rw [walkRecord read, walkRecord read, appendBehind, ← ih, ← fragmentBehind, Nat.add_right_comm offset n 5,
      Nat.add_right_comm _ n]
  | case4 offset t rest different ih =>
    rw [walkStray different, walkStray different, ← ih, Nat.add_right_comm]

end Extraction

end Behind

section Fragments

theorem entriesDamage {base : Nat} {list : Bytes} {issue : Issue} (damage : (entries base list).2 = some issue) :
    ∃ offset, issue = .certificates offset := by
  induction base, list using entries.induct with
  | case1 base =>
    rw [entries] at damage
    contradiction
  | case2 base a b c rest short =>
    rw [entriesShort short] at damage
    exact ⟨base, (Option.some.inj damage).symm⟩
  | case3 base a b c rest der after cut more _ read ih =>
    rw [entriesCut cut] at damage
    exact ih damage
  | case4 base list filled few =>
    rw [entriesFew filled few] at damage
    exact ⟨base, (Option.some.inj damage).symm⟩

theorem certificatesDamage {base : Nat} {payload : Bytes} {issue : Issue}
    (damage : (certificates base payload).2 = some issue) : ∃ offset, issue = .certificates offset := by
  unfold certificates at damage
  split at damage
  · split at damage
    · exact ⟨base, (Option.some.inj damage).symm⟩
    · exact entriesDamage damage
  · exact ⟨base, (Option.some.inj damage).symm⟩

namespace Extraction

theorem messageDamage {m : Message} {issue : Issue} (damage : issue ∈ (ofMessage m).issues) :
    ∃ offset, issue = .certificates offset := by
  unfold ofMessage at damage
  split at damage
  · exact certificatesDamage (Option.mem_toList.mp damage)
  · contradiction

theorem messageWhole (m : Message) : Whole (ofMessage m).issues := by
  intro offset mem
  obtain ⟨_, other⟩ := messageDamage mem
  contradiction

theorem fragmentWhole (base : Nat) (fragment : Bytes) : Whole (ofFragment base fragment).issues := by
  induction base, fragment using messages.induct with
  | case1 base =>
    rw [fragmentNil]
    exact fun offset => List.not_mem_nil
  | case2 base t a b c rest short =>
    rw [fragmentDamaged (messagesShort short)]
    intro offset mem
    cases List.mem_singleton.mp mem
  | case3 base t a b c rest payload after cut more issue read ih =>
    rw [fragmentCut cut]
    exact wholeAppend.mpr ⟨messageWhole _, ih⟩
  | case4 base fragment filled few =>
    rw [fragmentDamaged (messagesFew filled few base)]
    intro offset mem
    cases List.mem_singleton.mp mem

end Extraction

end Fragments

section Resumption

theorem readRecordMore {rest : Bytes} {r : Record} {after : Bytes}
    (read : readRecord? (handshakeType :: rest) = some (r, after)) (more : Bytes) :
    readRecord? (handshakeType :: (rest ++ more)) = some (r, after ++ more) := by
  match rest, read with
  | v :: w :: l :: m :: bytes, read =>
    obtain ⟨rfl, size, type, version⟩ := recordRead.mp read
    exact recordRead.mpr ⟨List.append_assoc _ _ _, size, type, version⟩

theorem walkResumes (offset : Nat) (a b : Bytes) : ∃ front more,
    Extraction.walk offset (a ++ b) = front.append more ∧ Whole front.issues ∧
    ((Extraction.walk offset a = front ∧ more = Extraction.walk (offset + a.length) b) ∨
      ∃ cut, Extraction.walk offset a = front.append ⟨[], [.record cut], 0⟩) := by
  induction offset, a using Extraction.walk.induct with
  | case1 offset =>
    refine ⟨.empty, _, (Extraction.emptyAppend _).symm, fun _ => List.not_mem_nil, .inl ⟨?_, rfl⟩⟩
    rw [Extraction.walk]
  | case2 offset rest short =>
    refine ⟨.empty, _, (Extraction.emptyAppend _).symm, fun _ => List.not_mem_nil, .inr ⟨offset, ?_⟩⟩
    rw [Extraction.walkTruncated short]
    rfl
  | case3 offset rest r after read ih =>
    obtain ⟨front, more, resumed, whole, stood⟩ := ih
    refine ⟨(Extraction.ofFragment (offset + 5) r.fragment).append front, more, ?_,
      wholeAppend.mpr ⟨Extraction.fragmentWhole _ _, whole⟩, ?_⟩
    · rw [List.cons_append, Extraction.walkRecord (readRecordMore read b), resumed, Extraction.appendAssoc]
    · rw [Extraction.walkRecord read]
      rcases stood with ⟨done, next⟩ | ⟨cut, stopped⟩
      · have length := readRecordLength read
        refine .inl ⟨by rw [done], ?_⟩
        rw [next, length]
        congr 1
        omega
      · exact .inr ⟨cut, by rw [stopped, Extraction.appendAssoc]⟩
  | case4 offset t rest different ih =>
    obtain ⟨front, more, resumed, whole, stood⟩ := ih
    refine ⟨front, more, ?_, whole, ?_⟩
    · rw [List.cons_append, Extraction.walkStray different, resumed]
    · rw [Extraction.walkStray different]
      refine stood.imp_left fun stopped => ⟨stopped.1, ?_⟩
      rw [stopped.2, List.length_cons, Nat.add_right_comm, Nat.add_assoc]

end Resumption

theorem extractGrows (a b : Bytes) :
    (extract a).certificates <+: (extract (a ++ b)).certificates ∧
    (extract a).records ≤ (extract (a ++ b)).records ∧
    standing (extract a).issues <+: (extract (a ++ b)).issues ∧
    ((∀ offset, .record offset ∉ (extract a).issues) → extract (a ++ b) =
      ⟨(extract a).certificates ++ (extract b).certificates,
        (extract a).issues ++ (extract b).issues.map (·.behind a.length),
        (extract a).records + (extract b).records⟩) := by
  obtain ⟨front, more, resumed, whole, stood⟩ := walkResumes 0 a b
  rw [← extract] at resumed
  rcases stood with ⟨done, next⟩ | ⟨cut, stopped⟩
  · rw [← extract] at done
    rw [resumed, done, standingWhole whole, next, Extraction.walkBehind, ← extract]
    exact ⟨List.prefix_append _ _, Nat.le_add_right _ _, List.prefix_append _ _, fun _ => rfl⟩
  · rw [← extract] at stopped
    rw [resumed, stopped]
    simp only [Extraction.append, List.append_nil, Nat.add_zero, standingCut]
    exact ⟨List.prefix_append _ _, Nat.le_add_right _ _, List.prefix_append _ _,
      fun unbroken => absurd unbroken (cutNotWhole cut)⟩

theorem damagedMessageGoesOn :
    let a := [22, 3, 3, 0, 13, 11, 0, 0, 7, 0, 0, 4, 0, 0, 1, 7, 11, 0]
    let b := [9, 22, 3, 3, 0, 11, 11, 0, 0, 7, 0, 0, 4, 0, 0, 1, 8, 22, 3]
    (∀ offset, .record offset ∉ (extract a).issues) ∧
    extract (a ++ b) = ⟨[[7], [8]], [.message 16, .record 35], 2⟩ ∧
    standing (extract (a ++ b)).issues = [.message 16] := by
  intro a b
  have damaged : extract a = ⟨[[7]], [.message 16], 1⟩ := by decide +kernel
  have broken : extract b = ⟨[[8]], [.record 17], 1⟩ := by decide +kernel
  have unbroken : ∀ offset, .record offset ∉ (extract a).issues := by simp [damaged]
  have grown := (extractGrows a b).2.2.2 unbroken
  rw [damaged, broken] at grown
  exact ⟨unbroken, grown, congrArg (standing ·.issues) grown⟩

end TlsCensus.Capture
