import TlsCensus.Digest
import TlsCensus.Proofs.Spelling
import Mathlib

/-! Digests and their text. Sixty-four hexadecimal digits between blanks are read, in either
case, and what is read is written in lower case as it stood there. Any other text is refused
for its length in octets or for the first octet that is no digit. -/
namespace TlsCensus

namespace Bytes

def IsHexChar (c : Char) : Prop := c.isDigit ∨ 'a' ≤ c ∧ c ≤ 'f' ∨ 'A' ≤ c ∧ c ≤ 'F'

instance (c : Char) : Decidable (IsHexChar c) := by
  unfold IsHexChar
  infer_instance

structure FirstBad (octets : Bytes) (bad : BadDigit) : Prop where
  here : octets[bad.position]? = some bad.octet
  wrong : ¬ IsHexChar (Char.ofNat bad.octet.toNat)
  before : ∀ i < bad.position, ∀ b ∈ octets[i]?, IsHexChar (Char.ofNat b.toNat)

section Digits

theorem octetsAll {holds : UInt8 → Prop} (each : ∀ n < 256, holds (UInt8.ofNat n)) (b : UInt8) : holds b := by
  have here := each b.toNat b.toNat_lt
  rwa [UInt8.ofNat_toNat] at here

theorem hexValueNone (b : UInt8) : hexValue? b = none ↔ ¬ IsHexChar (Char.ofNat b.toNat) := by
  revert b
  exact octetsAll (by decide +kernel)

theorem hexValueLower (b : UInt8) : ∀ v ∈ hexValue? b, v < 16 ∧ hexDigit v = (Char.ofNat b.toNat).toLower := by
  have each : ∀ b : UInt8,
      (hexValue? b).all (fun v => decide (v < 16 ∧ hexDigit v = (Char.ofNat b.toNat).toLower)) = true :=
    octetsAll (by decide +kernel)
  intro v value
  have here := each b
  rw [Option.mem_def.mp value] at here
  exact of_decide_eq_true here

theorem hexCharNarrow (b : UInt8) : IsHexChar (Char.ofNat b.toNat) → b < 0x80 := by
  revert b
  exact octetsAll (by decide +kernel)

theorem nibblesRejoin (b : UInt8) : b >>> 4 < 16 ∧ b &&& 15 < 16 ∧ (b >>> 4) <<< 4 ||| (b &&& 15) = b := by
  revert b
  exact octetsAll (by decide +kernel)

theorem digitsAll {holds : UInt8 → UInt8 → Prop} (each : ∀ n < 16, ∀ m < 16, holds (UInt8.ofNat n) (UInt8.ofNat m)) :
    ∀ v w : UInt8, v < 16 → w < 16 → holds v w := by
  intro v w first next
  have here := each v.toNat (UInt8.lt_iff_toNat_lt.mp first) w.toNat (UInt8.lt_iff_toNat_lt.mp next)
  rwa [UInt8.ofNat_toNat, UInt8.ofNat_toNat] at here

theorem nibblesSplit : ∀ high low : UInt8, high < 16 → low < 16 →
    (high <<< 4 ||| low) >>> 4 = high ∧ (high <<< 4 ||| low) &&& 15 = low :=
  digitsAll (by decide +kernel)

theorem hexDigitInjective : ∀ v w : UInt8, v < 16 → w < 16 → hexDigit v = hexDigit w → v = w :=
  digitsAll (by decide +kernel)

end Digits

theorem hexCharsInjective {a b : Bytes} (same : hexChars a = hexChars b) : a = b := by
  induction a generalizing b with
  | nil =>
    cases b with
    | nil => rfl
    | cons => simp [hexChars] at same
  | cons x rest ih =>
    cases b with
    | nil => simp [hexChars] at same
    | cons y more =>
      simp only [hexChars, List.cons.injEq] at same
      obtain ⟨high, low, tail⟩ := same
      obtain ⟨xHigh, xLow, xWhole⟩ := nibblesRejoin x
      obtain ⟨yHigh, yLow, yWhole⟩ := nibblesRejoin y
      have one : x = y := by
        rw [← xWhole, ← yWhole, hexDigitInjective _ _ xHigh yHigh high, hexDigitInjective _ _ xLow yLow low]
      rw [one, ih tail]

theorem hexCharsJoined {values : Bytes} {count : Nat} (paired : values.length = 2 * count) (small : ∀ v ∈ values, v < 16) :
    hexChars (joinDigits values) = values.map hexDigit ∧ (joinDigits values).length = count := by
  induction values using joinDigits.induct generalizing count with
  | case1 high low rest ih =>
    simp only [List.forall_mem_cons] at small
    obtain ⟨first, next, others⟩ := small
    obtain ⟨digits, length⟩ := @ih (count - 1) (by simp only [List.length_cons] at paired; omega) others
    obtain ⟨up, down⟩ := nibblesSplit _ _ first next
    refine ⟨?_, ?_⟩
    · rw [joinDigits, hexChars, up, down, digits]
      rfl
    · simp only [joinDigits, List.length_cons, length] at paired ⊢
      omega
  | case2 values few =>
    match values, few with
    | [], _ =>
      simp only [List.length_nil] at paired
      exact ⟨rfl, by simp [joinDigits]; omega⟩
    | [_], _ => simp only [List.length_singleton] at paired; omega
    | a :: b :: rest, few => exact absurd rfl (few a b rest)

theorem hexValuesCases (position : Nat) (octets : Bytes) :
    (∃ values, hexValues position octets = .ok values ∧ List.Forall₂ (fun b v => hexValue? b = some v) octets values) ∨
    ∃ front bad rest, octets = front ++ bad :: rest ∧ (∀ b ∈ front, hexValue? b ≠ none) ∧ hexValue? bad = none ∧
      hexValues position octets = .error ⟨bad, position + front.length⟩ := by
  induction octets generalizing position with
  | nil => exact .inl ⟨[], rfl, .nil⟩
  | cons b rest ih =>
    cases value : hexValue? b with
    | none => exact .inr ⟨[], b, rest, rfl, nofun, value, by simp [hexValues, value]⟩
    | some v =>
      rcases ih (position + 1) with ⟨values, read, each⟩ | ⟨front, bad, after, rfl, good, wrong, read⟩
      · exact .inl ⟨v :: values, by simp [hexValues, value, read, Except.map], .cons value each⟩
      · refine .inr ⟨b :: front, bad, after, rfl, ?_, wrong, ?_⟩
        · exact List.forall_mem_cons.mpr ⟨by simp [value], good⟩
        · simp [hexValues, value, read, Except.map]
          omega

theorem firstBadOnly {octets : Bytes} {bad other : BadDigit} (first : FirstBad octets bad) (next : FirstBad octets other) :
    bad = other := by
  rcases Nat.lt_trichotomy bad.position other.position with less | same | less
  · exact absurd (next.before _ less _ first.here) first.wrong
  · have octet := first.here
    rw [same, next.here] at octet
    cases bad
    cases other
    simp_all
  · exact absurd (first.before _ less _ next.here) next.wrong

theorem firstBadAt {front rest : Bytes} {bad : UInt8} (good : ∀ b ∈ front, hexValue? b ≠ none)
    (wrong : hexValue? bad = none) : FirstBad (front ++ bad :: rest) ⟨bad, front.length⟩ := by
  refine ⟨by simp, (hexValueNone bad).mp wrong, fun i less b here => ?_⟩
  rw [List.getElem?_append_left less] at here
  have read := good b (List.mem_of_getElem? here)
  exact not_not.mp (mt (hexValueNone b).mpr read)

theorem digitsRead {octets values : Bytes} (each : List.Forall₂ (fun b v => hexValue? b = some v) octets values) :
    (∀ v ∈ values, v < 16) ∧ (∀ b ∈ octets, IsHexChar (Char.ofNat b.toNat)) ∧
      values.map hexDigit = octets.map fun b => (Char.ofNat b.toNat).toLower := by
  induction each with
  | nil => exact ⟨nofun, nofun, rfl⟩
  | @cons b v rest more value _ ih =>
    obtain ⟨small, digits, written⟩ := ih
    obtain ⟨less, lower⟩ := hexValueLower b v value
    have digit : IsHexChar (Char.ofNat b.toNat) := by
      by_contra other
      rw [(hexValueNone b).mpr other] at value
      contradiction
    exact ⟨List.forall_mem_cons.mpr ⟨less, small⟩, List.forall_mem_cons.mpr ⟨digit, digits⟩,
      by rw [List.map_cons, List.map_cons, lower, written]⟩

theorem ofHexDigitsCases {octets : Bytes} {count : Nat} (size : octets.length = 2 * count) :
    (∃ read, ofHexDigits octets = .ok read ∧ read.length = count ∧ (∀ b ∈ octets, IsHexChar (Char.ofNat b.toNat)) ∧
      hexChars read = octets.map fun b => (Char.ofNat b.toNat).toLower) ∨
    ∃ bad, FirstBad octets bad ∧ ofHexDigits octets = .error bad := by
  rcases hexValuesCases 0 octets with ⟨values, read, each⟩ | ⟨front, bad, rest, rfl, good, wrong, read⟩
  · have paired : values.length = 2 * count := by rw [← each.length_eq, size]
    obtain ⟨small, digits, written⟩ := digitsRead each
    obtain ⟨chars, length⟩ := hexCharsJoined paired small
    exact .inl ⟨joinDigits values, by rw [ofHexDigits, read]; rfl, length, digits, chars.trans written⟩
  · refine .inr ⟨_, firstBadAt good wrong, ?_⟩
    rw [ofHexDigits, read, Nat.zero_add]
    rfl

theorem narrowLatin {c : Char} (narrow : c.toNat < 128) :
    (String.utf8EncodeChar c).map (fun b => Char.ofNat b.toNat) = [c] := by
  have value : c.toNat.toUInt8.toNat = c.toNat := Nat.mod_eq_of_lt (by omega)
  rw [narrowChar narrow, List.map_singleton, value, Char.ofNat_toNat]

theorem hexCharBelow {c : Char} (digit : IsHexChar c) : c.toNat < 128 := by
  rcases digit with decimal | ⟨-, most⟩ | ⟨-, most⟩
  · exact Nat.lt_of_le_of_lt (Char.isDigit_iff_toNat.mp decimal).2 (by decide)
  · exact Nat.lt_of_le_of_lt (UInt32.le_iff_toNat_le.mp most) (by decide)
  · exact Nat.lt_of_le_of_lt (UInt32.le_iff_toNat_le.mp most) (by decide)

theorem hexCharFilled {c : Char} (digit : IsHexChar c) : ¬ Text.isBlank c := by
  have narrow : ∀ c : Char, c.toNat < 128 → IsHexChar c → ¬ Text.isBlank c := Text.narrowAll (by decide +kernel)
  exact narrow c (hexCharBelow digit) digit

theorem lowerHexChar {c : Char} (lower : IsHexChar c.toLower) : IsHexChar c := by
  have narrow : ∀ c : Char, c.toNat < 128 → IsHexChar c.toLower → IsHexChar c := Text.narrowAll (by decide +kernel)
  by_cases below : c.toNat < 128
  · exact narrow c below lower
  · have kept : c.toLower = c := by
      rw [Char.toLower, dif_neg]
      rintro ⟨-, most⟩
      exact below (Nat.lt_of_le_of_lt (UInt32.le_iff_toNat_le.mp most) (by decide))
    rwa [kept] at lower

theorem hexCharIff (c : Char) : (∀ b ∈ String.utf8EncodeChar c, IsHexChar (Char.ofNat b.toNat)) ↔ IsHexChar c := by
  by_cases narrow : c.toNat < 128
  · rw [← List.forall_mem_map, narrowLatin narrow, List.forall_mem_singleton]
  · have wide : 128 ≤ c.toNat := by omega
    refine ⟨fun digits => ?_, fun digit => absurd (hexCharBelow digit) narrow⟩
    obtain ⟨b, here⟩ := List.exists_mem_of_ne_nil _ (@String.utf8EncodeChar_ne_nil c)
    exact absurd (wideChar wide b here) (UInt8.not_le.mpr (hexCharNarrow b (digits b here)))

theorem hexTextIff (s : String) : (∀ b ∈ ofText s, IsHexChar (Char.ofNat b.toNat)) ↔ ∀ c ∈ s.toList, IsHexChar c := by
  rw [ofTextChars, List.forall_mem_flatMap]
  exact forall₂_congr fun c _ => hexCharIff c

theorem hexText {s : String} (digits : ∀ c ∈ s.toList, IsHexChar c) :
    (ofText s).map (fun b => Char.ofNat b.toNat) = s.toList := by
  have each : ∀ c ∈ s.toList, (String.utf8EncodeChar c).map (fun b => Char.ofNat b.toNat) = [c] := fun c here =>
    narrowLatin (hexCharBelow (digits c here))
  rw [ofTextChars, List.map_flatMap, List.flatMap_congr each, List.flatMap_singleton']

theorem hexTextLength {s : String} (digits : ∀ c ∈ s.toList, IsHexChar c) : (ofText s).length = s.length := by
  have same := congrArg List.length (hexText digits)
  rwa [List.length_map, String.length_toList] at same

theorem hexCharsDigits (b : Bytes) : (hexChars b).length = 2 * b.length ∧ ∀ c ∈ hexChars b, IsHexChar c := by
  have digit : ∀ v w : UInt8, v < 16 → w < 16 → IsHexChar (hexDigit v) ∧ IsHexChar (hexDigit w) :=
    digitsAll (by decide +kernel)
  induction b with
  | nil => exact ⟨rfl, nofun⟩
  | cons x rest ih =>
    obtain ⟨length, digits⟩ := ih
    obtain ⟨high, low, -⟩ := nibblesRejoin x
    obtain ⟨first, next⟩ := digit _ _ high low
    refine ⟨?_, List.forall_mem_cons.mpr ⟨first, List.forall_mem_cons.mpr ⟨next, digits⟩⟩⟩
    simp only [hexChars, List.length_cons, length]
    omega

end Bytes

namespace Digest

theorem toHexInjective {d e : Digest} (same : d.toHex = e.toHex) : d = e := by
  have octets : d.octets = e.octets := Bytes.hexCharsInjective (String.ofList_injective same)
  cases d
  cases e
  congr

theorem ofHexCases (s : String) :
    let text := Text.trim s
    let octets := Bytes.ofText text
    (octets.length ≠ 64 ∧ ofHex s = .error (.length octets.length)) ∨
    octets.length = 64 ∧ ((∃ bad, Bytes.FirstBad octets bad ∧ ofHex s = .error (.hex bad)) ∨
      (∀ c ∈ text.toList, Bytes.IsHexChar c) ∧ ∃ d, ofHex s = .ok d ∧ d.toHex = text.toLower) := by
  intro text octets
  by_cases size : octets.length = 64
  · refine .inr ⟨size, ?_⟩
    have opened : ofHex s = _ := if_pos size
    rcases @Bytes.ofHexDigitsCases octets 32 size with ⟨found, given, length, digits, chars⟩ | ⟨bad, first, given⟩
    · have hex : ∀ c ∈ text.toList, Bytes.IsHexChar c := (Bytes.hexTextIff text).mp digits
      refine .inr ⟨hex, ⟨found, length⟩, ?_, ?_⟩
      · rw [opened, given]
        exact dif_pos length
      · have lower : octets.map (fun b => (Char.ofNat b.toNat).toLower) = text.toList.map Char.toLower := by
          rw [← Bytes.hexText hex, List.map_map]
          rfl
        rw [toHex, Bytes.toHex, chars, lower, String.toLower, ← String.toList_map, String.ofList_toList]
    · exact .inl ⟨bad, first, by rw [opened, given]⟩
  · exact .inl ⟨size, if_neg size⟩

theorem ofHexPadded {d : Digest} {front written back : List Char} (lower : (String.ofList written).toLower = d.toHex)
    (before : ∀ c ∈ front, Text.isBlank c) (behind : ∀ c ∈ back, Text.isBlank c) :
    ofHex (String.ofList (front ++ written ++ back)) = .ok d := by
  have chars : written.map Char.toLower = Bytes.hexChars d.octets := by
    rw [String.toLower, toHex, Bytes.toHex] at lower
    simpa using congrArg String.toList lower
  obtain ⟨size, digits⟩ := Bytes.hexCharsDigits d.octets
  rw [← chars] at size digits
  have hex : ∀ c ∈ written, Bytes.IsHexChar c := fun c here =>
    Bytes.lowerHexChar (digits _ (List.mem_map_of_mem here))
  have inner : Text.trim (String.ofList (front ++ written ++ back)) = String.ofList written := by
    have trimmed : Text.Trimmed (front ++ written ++ back) written :=
      ⟨⟨front, back, rfl, before, behind⟩,
        fun c here => Bytes.hexCharFilled (hex c (List.mem_of_mem_head? here)),
        fun c here => Bytes.hexCharFilled (hex c (List.mem_of_getLast? here))⟩
    rw [Text.trim, String.toList_ofList, Text.trimmedOnly trimmed]
  have length : (Bytes.ofText (String.ofList written)).length = 64 := by
    rw [Bytes.hexTextLength (by simpa using hex), String.length_ofList]
    simpa [d.size] using size
  have cases := ofHexCases (String.ofList (front ++ written ++ back))
  rw [inner] at cases
  rcases cases with ⟨other, -⟩ | ⟨-, ⟨bad, first, -⟩ | ⟨-, found, given, spelled⟩⟩
  · exact absurd length other
  · have octets := (Bytes.hexTextIff (String.ofList written)).mpr (by simpa using hex)
    exact absurd (octets _ (List.mem_of_getElem? first.here)) first.wrong
  · rw [given, toHexInjective (spelled.trans lower)]

theorem hexReadsDigits (s : String) :
    let text := Text.trim s
    let octets := Bytes.ofText text
    Text.Trimmed s.toList text.toList ∧
    ((∃ d, ofHex s = .ok d) ↔ text.length = 64 ∧ ∀ c ∈ text.toList, Bytes.IsHexChar c) ∧
    (∀ d, ofHex s = .ok d → d.toHex = text.toLower) ∧
    (∀ n, ofHex s = .error (.length n) ↔ n = octets.length ∧ n ≠ 64) ∧
    (∀ bad, ofHex s = .error (.hex bad) ↔ octets.length = 64 ∧ Bytes.FirstBad octets bad) ∧
    ∀ (d : Digest) (front written back : List Char), (String.ofList written).toLower = d.toHex →
      (∀ c ∈ front, Text.isBlank c) → (∀ c ∈ back, Text.isBlank c) →
      ofHex (String.ofList (front ++ written ++ back)) = .ok d := by
  intro text octets
  have trimmed : Text.Trimmed s.toList text.toList := by
    simpa [text, Text.trim] using Text.trimmedChars s.toList
  refine ⟨trimmed, ?_⟩
  have whole (digits : ∀ c ∈ text.toList, Bytes.IsHexChar c) : octets.length = text.length := Bytes.hexTextLength digits
  have clean (digits : ∀ c ∈ text.toList, Bytes.IsHexChar c) (bad : Bytes.BadDigit) : ¬ Bytes.FirstBad octets bad :=
    fun first => first.wrong ((Bytes.hexTextIff text).mpr digits _ (List.mem_of_getElem? first.here))
  have padded (d : Digest) (front written back : List Char) := @ofHexPadded d front written back
  rcases ofHexCases s with ⟨other, given⟩ | ⟨size, ⟨bad, first, given⟩ | ⟨digits, d, given, spelled⟩⟩ <;>
    simp only [given, reduceCtorEq, Except.ok.injEq, Except.error.injEq, ParseError.length.injEq, ParseError.hex.injEq]
  · refine ⟨⟨nofun, fun ⟨size, digits⟩ => absurd ((whole digits).trans size) other⟩, nofun, fun n => ?_, fun bad => ?_,
      padded⟩
    · exact ⟨fun same => ⟨same.symm, same ▸ other⟩, fun ⟨same, _⟩ => same.symm⟩
    · exact ⟨nofun, fun ⟨size, _⟩ => absurd size other⟩
  · refine ⟨⟨nofun, fun ⟨_, digits⟩ => absurd first (clean digits bad)⟩, nofun, fun n => ?_, fun other => ?_, padded⟩
    · exact ⟨nofun, fun ⟨same, long⟩ => absurd (same.trans size) long⟩
    · exact ⟨fun same => ⟨size, same ▸ first⟩, fun ⟨_, next⟩ => Bytes.firstBadOnly first next⟩
  · refine ⟨⟨fun _ => ⟨(whole digits).symm.trans size, digits⟩, fun _ => ⟨d, rfl⟩⟩, fun e same => same ▸ spelled,
      fun n => ?_, fun bad => ?_, padded⟩
    · exact ⟨nofun, fun ⟨same, long⟩ => absurd (same.trans size) long⟩
    · exact ⟨nofun, fun ⟨_, first⟩ => absurd first (clean digits bad)⟩

def mixedText : List Char := (List.replicate 32 ['A', 'b']).flatten

theorem mixedTextRead :
    let d : Digest := ⟨List.replicate 32 0xAB, rfl⟩
    (String.ofList mixedText).toLower = d.toHex ∧ Text.isBlank '\u00a0' ∧ Text.isBlank '\n' ∧
      ofHex (String.ofList (['\u00a0'] ++ mixedText ++ ['\n'])) = .ok d := by
  intro d
  have lower : (String.ofList mixedText).toLower = d.toHex := by
    rw [String.toLower, ← String.toList_inj]
    simp only [String.toList_map, String.toList_ofList, toHex, Bytes.toHex]
    decide +kernel
  have blanks : Text.isBlank '\u00a0' ∧ Text.isBlank '\n' := by decide +kernel
  obtain ⟨-, -, -, -, -, padded⟩ := hexReadsDigits ""
  exact ⟨lower, blanks.1, blanks.2, padded d _ _ _ lower (List.forall_mem_singleton.mpr blanks.1)
    (List.forall_mem_singleton.mpr blanks.2)⟩

end Digest

end TlsCensus
