import TlsCensus.Capture

/-! The captures that are walked without an issue, as a grammar of their own: stray octets
and handshake records, in a record whole messages, in a certificate message a list of whole
entries. A walk is clean for exactly these, and then yields what the grammar does. -/
namespace TlsCensus.Capture

def Sized (a b c : UInt8) (field : Bytes) : Prop :=
  field.length = a.toNat * 65536 + b.toNat * 256 + c.toNat

inductive EntryList : Bytes → List Bytes → Prop where
  | nil : EntryList [] []
  | cons {a b c der rest ders} (size : Sized a b c der) (tail : EntryList rest ders) :
      EntryList (a :: b :: c :: (der ++ rest)) (der :: ders)

inductive CertificatePayload : Bytes → List Bytes → Prop where
  | mk {a b c list ders} (trailing : Bytes) (size : Sized a b c list) (inner : EntryList list ders) :
      CertificatePayload (a :: b :: c :: (list ++ trailing)) ders

inductive Fragment : Bytes → List Bytes → Prop where
  | nil : Fragment [] []
  | certificate {a b c payload ders rest more} (size : Sized a b c payload)
      (inner : CertificatePayload payload ders) (tail : Fragment rest more) :
      Fragment (11 :: a :: b :: c :: (payload ++ rest)) (ders.filter (· ≠ []) ++ more)
  | other {t a b c payload rest more} (different : t ≠ 11) (size : Sized a b c payload)
      (tail : Fragment rest more) : Fragment (t :: a :: b :: c :: (payload ++ rest)) more

inductive Items : Bytes → List Bytes → Nat → Prop where
  | nil : Items [] [] 0
  | stray {t rest ders records} (different : t ≠ 22) (tail : Items rest ders records) :
      Items (t :: rest) ders records
  | record {v w l m fragment rest inner ders records} (size : fragment.length = l.toNat * 256 + m.toNat)
      (framed : Fragment fragment inner) (tail : Items rest ders records) :
      Items (22 :: v :: w :: l :: m :: (fragment ++ rest)) (inner ++ ders) (records + 1)

theorem cutOk {n : Nat} {b front rest : Bytes} :
    Bytes.cut? n b = some (front, rest) ↔ b = front ++ rest ∧ front.length = n := by
  constructor
  · exact Bytes.cutLength
  · rintro ⟨rfl, rfl⟩
    simp [Bytes.cut?]

theorem cutSized {a b c : UInt8} {bytes front rest : Bytes} :
    Bytes.cut? (uint24 a b c) bytes = some (front, rest) ↔ bytes = front ++ rest ∧ Sized a b c front := by
  have value : uint24 a b c = a.toNat * 65536 + b.toNat * 256 + c.toNat := by
    simp only [uint24, Bytes.bigEndian, List.foldl_cons, List.foldl_nil]
    omega
  rw [cutOk, Sized, value]

section Entries

theorem entriesCut {base : Nat} {a b c : UInt8} {rest der after : Bytes}
    (cut : Bytes.cut? (uint24 a b c) rest = some (der, after)) :
    entries base (a :: b :: c :: rest) =
      (der :: (entries (base + 3 + der.length) after).1, (entries (base + 3 + der.length) after).2) := by
  rw [entries]
  split
  · rename_i short
    simp [cut] at short
  · rename_i found
    cases Option.some.inj (cut.symm.trans found)
    rfl

theorem entriesShort {base : Nat} {a b c : UInt8} {rest : Bytes}
    (short : Bytes.cut? (uint24 a b c) rest = none) :
    entries base (a :: b :: c :: rest) = ([], some (.certificates base)) := by
  rw [entries]
  split
  · rfl
  · rename_i found
    simp [short] at found

theorem entriesFew {list : Bytes} (filled : list = [] → False)
    (few : ∀ a b c rest, list = a :: b :: c :: rest → False) (base : Nat) :
    entries base list = ([], some (.certificates base)) := by
  rw [entries]
  · exact filled
  · exact few

theorem entriesSound {base : Nat} {list : Bytes} (clean : (entries base list).2 = none) :
    EntryList list (entries base list).1 := by
  induction base, list using entries.induct with
  | case1 base =>
    rw [entries]
    exact .nil
  | case2 base a b c rest short =>
    rw [entriesShort short] at clean
    contradiction
  | case3 base a b c rest der after cut more issue read ih =>
    rw [entriesCut cut] at clean ⊢
    obtain ⟨rfl, size⟩ := cutSized.mp cut
    exact .cons size (ih clean)
  | case4 base list filled few =>
    rw [entriesFew filled few] at clean
    contradiction

theorem entriesPast {front : Bytes} {ders : List Bytes} (h : EntryList front ders) (rest : Bytes) (base : Nat) :
    entries base (front ++ rest) =
      (ders ++ (entries (base + front.length) rest).1, (entries (base + front.length) rest).2) := by
  induction h generalizing base with
  | nil => rfl
  | @cons a b c der tail ders size _ ih =>
    have stop : base + 3 + der.length + tail.length = base + (a :: b :: c :: (der ++ tail)).length := by
      simp only [List.length_cons, List.length_append]
      omega
    simp only [List.cons_append, List.append_assoc]
    rw [entriesCut (cutSized.mpr ⟨rfl, size⟩), ih, stop]

theorem entriesComplete {list : Bytes} {ders : List Bytes} (h : EntryList list ders) (base : Nat) :
    entries base list = (ders, none) := by
  have past := entriesPast h [] base
  rwa [List.append_nil, entries, List.append_nil] at past

end Entries

section Payload

theorem certificatesSound {base : Nat} {payload : Bytes} (clean : (certificates base payload).2 = none) :
    ∃ ders, CertificatePayload payload ders ∧ (certificates base payload).1 = ders.filter (· ≠ []) := by
  unfold certificates at clean ⊢
  split at clean
  · rename_i a b c rest
    split at clean
    · contradiction
    · rename_i list trailing cut
      obtain ⟨rfl, size⟩ := cutSized.mp cut
      refine ⟨_, .mk trailing size (entriesSound clean), ?_⟩
      dsimp only
      exact List.filter_congr fun der _ => by cases der <;> rfl
  · contradiction

theorem certificatesComplete {payload : Bytes} {ders : List Bytes} (h : CertificatePayload payload ders) (base : Nat) :
    certificates base payload = (ders.filter (· ≠ []), none) := by
  obtain ⟨trailing, size, inner⟩ := h
  simp only [certificates, cutSized.mpr ⟨rfl, size⟩, entriesComplete inner]
  exact congrArg (·, none) (List.filter_congr fun der _ => by cases der <;> rfl)

end Payload

section Messages

theorem messagesCut {base : Nat} {t a b c : UInt8} {rest payload after : Bytes}
    (cut : Bytes.cut? (uint24 a b c) rest = some (payload, after)) :
    messages base (t :: a :: b :: c :: rest) =
      (⟨base + 4, t, payload⟩ :: (messages (base + 4 + payload.length) after).1,
        (messages (base + 4 + payload.length) after).2) := by
  rw [messages]
  split
  · rename_i short
    simp [cut] at short
  · rename_i found
    cases Option.some.inj (cut.symm.trans found)
    rfl

theorem messagesShort {base : Nat} {t a b c : UInt8} {rest : Bytes}
    (short : Bytes.cut? (uint24 a b c) rest = none) :
    messages base (t :: a :: b :: c :: rest) = ([], some (.message base)) := by
  rw [messages]
  split
  · rfl
  · rename_i found
    simp [short] at found

theorem messagesFew {fragment : Bytes} (filled : fragment = [] → False)
    (few : ∀ t a b c rest, fragment = t :: a :: b :: c :: rest → False) (base : Nat) :
    messages base fragment = ([], some (.message base)) := by
  rw [messages]
  · exact filled
  · exact few

namespace Extraction

theorem fragmentNil (base : Nat) : ofFragment base [] = ⟨[], [], 1⟩ := by
  rw [ofFragment, messages]
  rfl

theorem fragmentDamaged {base : Nat} {fragment : Bytes} {issue : Issue}
    (damaged : messages base fragment = ([], some issue)) : ofFragment base fragment = ⟨[], [issue], 1⟩ := by
  rw [ofFragment, damaged]
  rfl

theorem fragmentCut {base : Nat} {t a b c : UInt8} {rest payload after : Bytes}
    (cut : Bytes.cut? (uint24 a b c) rest = some (payload, after)) :
    ofFragment base (t :: a :: b :: c :: rest) =
      append (ofMessage ⟨base + 4, t, payload⟩) (ofFragment (base + 4 + payload.length) after) := by
  rw [ofFragment, messagesCut cut]
  rfl

end Extraction

theorem fragmentSound {base : Nat} {fragment : Bytes} (clean : (Extraction.ofFragment base fragment).issues = []) :
    Fragment fragment (Extraction.ofFragment base fragment).certificates := by
  induction base, fragment using messages.induct with
  | case1 base =>
    rw [Extraction.fragmentNil]
    exact .nil
  | case2 base t a b c rest short =>
    rw [Extraction.fragmentDamaged (messagesShort short)] at clean
    contradiction
  | case3 base t a b c rest payload after cut more issue read ih =>
    rw [Extraction.fragmentCut cut] at clean ⊢
    obtain ⟨rfl, size⟩ := cutSized.mp cut
    obtain ⟨here, later⟩ := List.append_eq_nil_iff.mp clean
    have tail := ih later
    by_cases certificate : t = certificateType
    · subst certificate
      simp only [Extraction.append, Extraction.ofMessage, if_pos] at here ⊢
      obtain ⟨ders, inner, found⟩ := certificatesSound (Option.toList_eq_nil_iff.mp here)
      rw [found]
      exact .certificate size inner tail
    · simp only [Extraction.append, Extraction.ofMessage, if_neg certificate]
      exact .other certificate size tail
  | case4 base fragment filled few =>
    rw [Extraction.fragmentDamaged (messagesFew filled few base)] at clean
    contradiction

theorem fragmentComplete {fragment : Bytes} {ders : List Bytes} (h : Fragment fragment ders) (base : Nat) :
    Extraction.ofFragment base fragment = ⟨ders, [], 1⟩ := by
  induction h generalizing base with
  | nil => exact Extraction.fragmentNil base
  | certificate size inner tail ih =>
    rw [Extraction.fragmentCut (cutSized.mpr ⟨rfl, size⟩), ih]
    simp [Extraction.ofMessage, certificateType, certificatesComplete inner, Extraction.append]
  | other different size tail ih =>
    rw [Extraction.fragmentCut (cutSized.mpr ⟨rfl, size⟩), ih]
    simp [Extraction.ofMessage, certificateType, different, Extraction.append, Extraction.empty]

end Messages

section Walk

theorem recordRead {t v w l m : UInt8} {bytes : Bytes} {r : Record} {after : Bytes} :
    readRecord? (t :: v :: w :: l :: m :: bytes) = some (r, after) ↔
      bytes = r.fragment ++ after ∧ r.fragment.length = l.toNat * 256 + m.toNat ∧
        r.contentType = t ∧ r.version = (Bytes.bigEndian [v, w]).toUInt16 := by
  have value : Bytes.bigEndian [l, m] = l.toNat * 256 + m.toNat := by
    simp only [Bytes.bigEndian, List.foldl_cons, List.foldl_nil]
    omega
  simp only [readRecord?, Option.map_eq_some_iff, Prod.exists, Prod.mk.injEq]
  constructor
  · rintro ⟨fragment, rest, cut, rfl, rfl⟩
    obtain ⟨whole, size⟩ := cutOk.mp cut
    exact ⟨whole, size.trans value, rfl, rfl⟩
  · rintro ⟨whole, size, type, version⟩
    refine ⟨r.fragment, after, cutOk.mpr ⟨whole, size.trans value.symm⟩, ?_, rfl⟩
    rw [← type, ← version]

namespace Extraction

theorem walkRecord {offset : Nat} {rest : Bytes} {r : Record} {after : Bytes}
    (read : readRecord? (handshakeType :: rest) = some (r, after)) :
    walk offset (handshakeType :: rest) =
      append (ofFragment (offset + 5) r.fragment) (walk (offset + 5 + r.fragment.length) after) := by
  rw [walk, if_pos rfl]
  split
  · rename_i short
    simp [read] at short
  · rename_i found
    cases Option.some.inj (read.symm.trans found)
    rfl

theorem walkTruncated {offset : Nat} {rest : Bytes} (short : readRecord? (handshakeType :: rest) = none) :
    walk offset (handshakeType :: rest) = ⟨[], [.record offset], 0⟩ := by
  rw [walk, if_pos rfl]
  split
  · rfl
  · rename_i found
    simp [short] at found

theorem walkStray {offset : Nat} {t : UInt8} {rest : Bytes} (different : t ≠ handshakeType) :
    walk offset (t :: rest) = walk (offset + 1) rest := by
  rw [walk, if_neg different]

end Extraction

theorem walkSound {offset : Nat} {b : Bytes} (clean : (Extraction.walk offset b).issues = []) :
    Items b (Extraction.walk offset b).certificates (Extraction.walk offset b).records := by
  induction offset, b using Extraction.walk.induct with
  | case1 offset =>
    rw [Extraction.walk]
    exact .nil
  | case2 offset rest short =>
    rw [Extraction.walkTruncated short] at clean
    contradiction
  | case3 offset rest r after read ih =>
    rw [Extraction.walkRecord read] at clean ⊢
    obtain ⟨here, later⟩ := List.append_eq_nil_iff.mp clean
    have framed := fragmentSound here
    match rest, read with
    | v :: w :: l :: m :: bytes, read =>
      obtain ⟨rfl, size, -, -⟩ := recordRead.mp read
      have counted : (Extraction.ofFragment (offset + 5) r.fragment).records = 1 := by
        rw [fragmentComplete framed]
      have whole := Items.record (v := v) (w := w) size framed (ih later)
      simp only [Extraction.append, counted, Nat.add_comm 1]
      exact whole
  | case4 offset t rest different ih =>
    rw [Extraction.walkStray different] at clean ⊢
    exact .stray different (ih clean)

theorem walkComplete {b : Bytes} {ders : List Bytes} {records : Nat} (h : Items b ders records) (offset : Nat) :
    Extraction.walk offset b = ⟨ders, [], records⟩ := by
  induction h generalizing offset with
  | nil =>
    rw [Extraction.walk]
    rfl
  | stray different tail ih => rw [Extraction.walkStray different, ih]
  | @record v w l m fragment rest inner ders records size framed tail ih =>
    have read : readRecord? (handshakeType :: v :: w :: l :: m :: (fragment ++ rest)) =
        some (⟨22, (Bytes.bigEndian [v, w]).toUInt16, fragment⟩, rest) :=
      recordRead.mpr ⟨rfl, size, rfl, rfl⟩
    change Extraction.walk offset (handshakeType :: v :: w :: l :: m :: (fragment ++ rest)) = _
    rw [Extraction.walkRecord read, fragmentComplete framed, ih]
    simp [Extraction.append, Nat.add_comm]

end Walk

theorem extractCleanIff (capture : Bytes) :
    ((extract capture).issues = [] ↔ ∃ ders records, Items capture ders records) ∧
      ∀ ders records, Items capture ders records ↔ extract capture = ⟨ders, [], records⟩ := by
  refine ⟨⟨fun clean => ⟨_, _, walkSound clean⟩, ?_⟩, fun ders records => ⟨fun h => walkComplete h 0, ?_⟩⟩
  · rintro ⟨ders, records, h⟩
    rw [extract, walkComplete h]
  · intro walked
    have sound := walkSound (show (extract capture).issues = [] by rw [walked])
    rw [← extract, walked] at sound
    exact sound

end TlsCensus.Capture
