import TlsCensus.Proofs.DottedText
import TlsCensus.Proofs.Shards
import TlsCensus.Proofs.Spelling

/-! Blocks asked for by text. Between blanks a text is an address and a prefix length of at most
32 behind a slash, or an address alone, which stands for its own block; then it asks for what the
address and the length ask for. Any other text is refused by what is left of it without the
blanks, and nothing changes. -/
namespace TlsCensus

namespace Address

def prefixText (a : UInt32) (length : UInt8) : String := text a ++ "/" ++ toString length.toNat

/- Zeros may stand in front of the numbers of an address that a length follows. -/
inductive Cidr : UInt32 → UInt8 → List Char → Prop where
  | bare (a) : Cidr a 32 (text a).toList
  | slashed {a n address digits} (dotted : Dotted Loose a address) (length : Numeral 2 33 n digits) :
      Cidr a n.toUInt8 (address ++ '/' :: digits)

def Overlong (cs : List Char) : Prop :=
  ∃ front digits, cs = front ++ '/' :: digits ∧ (∀ c ∈ digits, c.isDigit) ∧ 32 < decimal digits

def Addressless (cs : List Char) : Prop :=
  (∀ a, cs ≠ (text a).toList) ∧ ∀ a address rest, Dotted Loose a address → cs ≠ address ++ '/' :: rest

section Grammar

theorem digitsUnslashed {digits : List Char} (only : ∀ c ∈ digits, c.isDigit) : '/' ∉ digits := fun here =>
  absurd (only _ here) (by decide)

theorem textUnslashed (a : UInt32) : '/' ∉ (text a).toList := by
  intro here
  rcases textDigits a _ here with digit | dot
  · exact absurd digit (by decide)
  · exact absurd dot (by decide)

theorem dottedUnslashed {a : UInt32} {address : List Char} (dotted : Dotted Loose a address) : '/' ∉ address := by
  cases dotted with
  | octets a b c d =>
    simp [digitsUnslashed a.only, digitsUnslashed b.only, digitsUnslashed c.only, digitsUnslashed d.only]

theorem withLengthIff {cs : List Char} {a : UInt32} {length : UInt8} : withLength? cs = some (a, length) ↔
    ∃ n address digits, cs = address ++ '/' :: digits ∧ Dotted Loose a address ∧ Numeral 2 33 n digits ∧
      length = n.toUInt8 := by
  have address := @dottedIff _ _ looseReads
  constructor
  · intro read
    simp only [withLength?, Option.bind_eq_bind, Option.bind_eq_some_iff, expectIff, Prod.exists] at read
    obtain ⟨b, _, front, _, rfl, n, rest, number, last⟩ := read
    obtain ⟨chars, rfl, dotted, -⟩ := address.mp front
    obtain ⟨digits, rfl, numeral, -⟩ := numberIff.mp number
    split at last <;> cases last
    rename_i nothing
    exact ⟨n, chars, digits, by rw [List.isEmpty_iff.mp nothing, List.append_nil], dotted, numeral, rfl⟩
  · rintro ⟨n, chars, digits, rfl, dotted, numeral, rfl⟩
    have slash : Ends ('/' :: digits) := by
      rintro c ⟨⟩
      decide
    have front := address.mpr ⟨chars, rfl, dotted, slash⟩
    have number := numberIff.mpr ⟨digits, (List.append_nil _).symm, numeral, nofun⟩
    simp [withLength?, front, number, expect]

theorem cidrIff {cs : List Char} {a : UInt32} {length : UInt8} : Sweep.readCidr cs = some (a, length) ↔ Cidr a length cs := by
  unfold Sweep.readCidr
  constructor
  · intro read
    split at read
    · obtain ⟨n, address, digits, rfl, dotted, numeral, rfl⟩ := withLengthIff.mp read
      exact .slashed dotted numeral
    · obtain ⟨b, whole, same⟩ := Option.map_eq_some_iff.mp read
      cases same
      rw [ofTextIff.mp whole]
      exact .bare a
  · rintro (_ | ⟨dotted, numeral⟩)
    · rw [if_neg (by simpa using textUnslashed a), ofTextRead]
      rfl
    · rw [if_pos (by simp)]
      exact withLengthIff.mpr ⟨_, _, _, rfl, dotted, numeral, rfl⟩

theorem overlongNot {cs : List Char} (overlong : Overlong cs) (a : UInt32) (length : UInt8) : ¬ Cidr a length cs := by
  obtain ⟨front, digits, whole, only, large⟩ := overlong
  intro cidr
  cases cidr with
  | bare => exact textUnslashed a (by simp [whole])
  | slashed dotted numeral =>
    have same := ((List.append_cons_inj_of_notMem (dottedUnslashed dotted) (digitsUnslashed numeral.only)).mp whole).2.2
    have below := numeral.below
    rw [← numeral.value, same] at below
    omega

theorem addresslessNot {cs : List Char} (addressless : Addressless cs) (a : UInt32) (length : UInt8) :
    ¬ Cidr a length cs := by
  intro cidr
  cases cidr with
  | bare => exact addressless.1 a rfl
  | slashed dotted numeral => exact addressless.2 a _ _ dotted rfl

theorem prefixChars (a : UInt32) (length : UInt8) :
    (prefixText a length).toList = (text a).toList ++ '/' :: Nat.toDigits 10 length.toNat := by
  simp [prefixText]

theorem prefixCidr {length : UInt8} (narrow : length ≤ 32) (a : UInt32) : Cidr a length (prefixText a length).toList := by
  have most : length.toNat ≤ 32 := UInt8.le_iff_toNat_le.mp narrow
  have numeral : Numeral 2 33 length.toNat (Nat.toDigits 10 length.toNat) :=
    digitsNumeral (by decide) (by omega) (by omega)
  have slashed := Cidr.slashed (dottedLoose (textDotted a)) numeral
  rwa [Nat.toUInt8, UInt8.ofNat_toNat, ← prefixChars] at slashed

theorem digitFilled {c : Char} (digit : c.isDigit) : ¬ Text.isBlank c := by
  have narrow : ∀ c : Char, c.toNat < 128 → c.isDigit → ¬ Text.isBlank c := Text.narrowAll (by decide +kernel)
  exact narrow c (Nat.lt_of_le_of_lt (Char.isDigit_iff_toNat.mp digit).2 (by decide)) digit

theorem textFilled (a : UInt32) : ∀ c ∈ (text a).toList, ¬ Text.isBlank c := by
  intro c here
  rcases textDigits a c here with digit | rfl
  · exact digitFilled digit
  · decide

theorem prefixFilled (a : UInt32) (length : UInt8) : ∀ c ∈ (prefixText a length).toList, ¬ Text.isBlank c := by
  rw [prefixChars, List.forall_mem_append, List.forall_mem_cons]
  exact ⟨textFilled a, by decide, fun c here => digitFilled (digitsOnly _ c here)⟩

end Grammar

end Address

namespace Text

theorem trimPadded {front inner back : String} (before : ∀ c ∈ front.toList, isBlank c)
    (behind : ∀ c ∈ back.toList, isBlank c) (filled : ∀ c ∈ inner.toList, ¬ isBlank c) :
    trim (front ++ inner ++ back) = inner := by
  have trimmed : Trimmed (front ++ inner ++ back).toList inner.toList :=
    ⟨⟨_, _, by simp, before, behind⟩, fun c here => filled c (List.mem_of_mem_head? here),
      fun c here => filled c (List.mem_of_getLast? here)⟩
  rw [trim, trimmedOnly trimmed, String.ofList_toList]

end Text

namespace Sweep

section Addition
variable (s : Sweep)

theorem addCidrIs {written : String} {a : UInt32} {length : UInt8} (cidr : Address.Cidr a length (Text.trim written).toList) :
    s.addCidr written = s.addPrefix a length := by
  rw [Text.trim, String.toList_ofList] at cidr
  simp only [addCidr, Address.cidrIff.mpr cidr]

theorem addCidrNot {written : String} (unread : ∀ a length, ¬ Address.Cidr a length (Text.trim written).toList) :
    s.addCidr written = (.error (.badCidr (Text.trim written)), s) := by
  rw [Text.trim, String.toList_ofList] at unread
  have refused : readCidr (Text.trimChars written.toList) = none := by
    refine Option.eq_none_iff_forall_ne_some.mpr fun pair read => unread pair.1 pair.2 (Address.cidrIff.mp read)
  simp only [addCidr, refused, Text.trim]

end Addition

theorem addPrefixNarrow {s : Sweep} (sound : s.Sound) (a : UInt32) {length : UInt8} (narrow : length ≤ 32) :
    (s.addPrefix a length).1 = .ok () ∨ s.addPrefix a length = (.error (.badPrefix (.hostBits a length)), s) ∨
      ∃ new, ∃ existing ∈ s.blocks, s.addPrefix a length = (.error (.overlap new existing), s) := by
  rcases addPrefixCases s a length with ⟨e, made, same⟩ | ⟨block, made, same⟩
  · have bits : e = .hostBits a length := by
      rw [Block.ofPrefix, if_neg (UInt8.not_lt.mpr narrow)] at made
      split at made
      · exact (Except.error.inj made).symm
      · split at made <;> contradiction
    exact .inr (.inl (bits ▸ same))
  · rcases addBlockCases sound (Block.prefixNonempty made) with ⟨existing, mem, -, refused⟩ | ⟨-, laid⟩
    · exact .inr (.inr ⟨block, existing, mem, same.trans refused⟩)
    · exact .inl (by rw [same, laid])

theorem cidrsAddedAsPrefixes {s : Sweep} (built : s.Built) :
    (∀ (a : UInt32) (length : UInt8) (front back : String), length ≤ 32 →
      (∀ c ∈ front.toList, Text.isBlank c) → (∀ c ∈ back.toList, Text.isBlank c) →
      s.addCidr (front ++ Address.prefixText a length ++ back) = s.addPrefix a length ∧
      s.addCidr (front ++ Address.text a ++ back) = s.addPrefix a 32 ∧
      ((s.addPrefix a length).1 = .ok () ∨ s.addPrefix a length = (.error (.badPrefix (.hostBits a length)), s) ∨
        ∃ new, ∃ existing ∈ s.blocks, s.addPrefix a length = (.error (.overlap new existing), s))) ∧
    ∀ written : String, let inner := Text.trim written
      Text.Trimmed written.toList inner.toList ∧
      (∀ a length, Address.Cidr a length inner.toList → s.addCidr written = s.addPrefix a length) ∧
      ((∀ a length, ¬ Address.Cidr a length inner.toList) → s.addCidr written = (.error (.badCidr inner), s)) ∧
      (Address.Overlong inner.toList ∨ Address.Addressless inner.toList →
        s.addCidr written = (.error (.badCidr inner), s)) := by
  refine ⟨fun a length front back narrow before behind => ?_, fun written => ?_⟩
  · refine ⟨addCidrIs s ?_, addCidrIs s ?_, addPrefixNarrow built.sound a narrow⟩
    · rw [Text.trimPadded before behind (Address.prefixFilled a length)]
      exact Address.prefixCidr narrow a
    · rw [Text.trimPadded before behind (Address.textFilled a)]
      exact .bare a
  · refine ⟨?_, fun a length => addCidrIs s, addCidrNot s, ?_⟩
    · rw [Text.trim, String.toList_ofList]
      exact Text.trimmedChars written.toList
    · rintro (overlong | addressless)
      · exact addCidrNot s (Address.overlongNot overlong)
      · exact addCidrNot s (Address.addresslessNot addressless)

theorem zerosReadInFront :
    let s := (new 3 1).addAll [.cidr "10.0.0.0/30"]
    s.Built ∧ s.addCidr ("\t" ++ Address.prefixText 0x0A000001 24 ++ "\n") = s.addPrefix 0x0A000001 24 ∧
    s.addPrefix 0x0A000001 24 = (.error (.badPrefix (.hostBits 0x0A000001 24)), s) ∧
    s.addCidr ("\t" ++ Address.text 0x0A000001 ++ "\n") = s.addPrefix 0x0A000001 32 ∧
    (s.addPrefix 0x0A000001 32).1 ≠ .ok () ∧
    s.addCidr " 010.1.0.0/08" = s.addPrefix 0x0A010000 8 ∧
    s.addCidr "10.1.0.0/033 " = (.error (.badCidr "10.1.0.0/033"), s) := by
  intro s
  have built : s.Built := .added _ (.new 3 1)
  obtain ⟨asked, written⟩ := cidrsAddedAsPrefixes built
  obtain ⟨slashed, bare, -⟩ := asked 0x0A000001 24 "\t" "\n" (by decide) (List.all_eq_true.mp rfl) (List.all_eq_true.mp rfl)
  have refused : s.addPrefix 0x0A000001 24 = (.error (.badPrefix (.hostBits 0x0A000001 24)), s) := rfl
  have taken : (s.addPrefix 0x0A000001 32).1.isOk = false := by decide +kernel
  have loose : Address.Cidr 0x0A010000 8 (Text.trim " 010.1.0.0/08").toList := Address.cidrIff.mp (by decide +kernel)
  have inner : Text.trim "10.1.0.0/033 " = "10.1.0.0/033" := by decide +kernel
  have overlong : Address.Overlong (Text.trim "10.1.0.0/033 ").toList :=
    ⟨"10.1.0.0".toList, "033".toList, by rw [inner]; decide, List.all_eq_true.mp rfl, by decide⟩
  have three := (written "10.1.0.0/033 ").2.2.2 (.inl overlong)
  rw [inner] at three
  refine ⟨built, slashed, refused, bare, fun free => ?_, (written " 010.1.0.0/08").2.1 _ _ loose, three⟩
  rw [free] at taken
  contradiction

end Sweep
end TlsCensus
