import TlsCensus.Address
import Mathlib.Data.List.TakeWhile
import Mathlib.Data.Nat.Bitwise

/-! Addresses in their dotted text. A number is read off the digits in front of anything but a
digit, and from these alone. Read strictly, an octet is its decimal digits, so that the text of an
address is the only one that is read as it; read loosely, zeros may stand in front. -/
namespace TlsCensus.Address

section Numbers

theorem decimalDigits (n : Nat) : decimal (Nat.toDigits 10 n) = n := by
  have read := @Nat.ofDigitChars_ten_toDigits n
  rw [Nat.ofDigitChars_eq_foldl] at read
  simp only [Nat.mul_comm 10] at read
  exact read

theorem digitsOnly (n : Nat) : ∀ c ∈ Nat.toDigits 10 n, c.isDigit := fun _ here =>
  Nat.isDigit_of_mem_toDigits (by decide) (by decide) here

def Ends (rest : List Char) : Prop := ∀ c ∈ rest.head?, ¬ c.isDigit

theorem endsDot (rest : List Char) : Ends ('.' :: rest) := by
  intro c here
  cases here
  decide

structure Numeral (width bound n : Nat) (digits : List Char) : Prop where
  only : ∀ c ∈ digits, c.isDigit
  some : digits ≠ []
  narrow : digits.length ≤ width
  value : decimal digits = n
  below : n < bound

theorem digitsNumeral {width bound n : Nat} (wide : 0 < width) (fits : n < 10 ^ width) (below : n < bound) :
    Numeral width bound n (Nat.toDigits 10 n) :=
  ⟨digitsOnly n, Nat.toDigits_ne_nil, (Nat.length_toDigits_le_iff (by decide) wide).mpr fits, decimalDigits n, below⟩

theorem digitsTaken {digits rest : List Char} (only : ∀ c ∈ digits, c.isDigit) (ends : Ends rest) :
    (digits ++ rest).takeWhile Char.isDigit = digits := by
  have nothing : rest.takeWhile Char.isDigit = [] := by
    cases rest with
    | nil => rfl
    | cons c rest => rw [List.takeWhile_cons, if_neg (ends c rfl)]
  rw [List.takeWhile_append_of_pos only, nothing, List.append_nil]

theorem digitsLeft (cs : List Char) : Ends (cs.dropWhile Char.isDigit) := by
  intro c here
  have first := List.head?_dropWhile_not Char.isDigit cs
  rw [Option.mem_def.mp here] at first
  exact Bool.not_eq_true _ ▸ first

theorem numberIff {width bound n : Nat} {cs rest : List Char} : number? width bound cs = .some (n, rest) ↔
    ∃ digits, cs = digits ++ rest ∧ Numeral width bound n digits ∧ Ends rest := by
  constructor
  · intro read
    simp only [number?] at read
    split at read <;> try contradiction
    rename_i fits
    simp only [Bool.or_eq_true, List.isEmpty_iff, decide_eq_true_eq, not_or, Nat.not_lt, Nat.not_le] at fits
    obtain ⟨⟨some, narrow⟩, below⟩ := fits
    obtain ⟨value, left⟩ := Prod.mk.inj (Option.some.inj read)
    have cut := @List.takeWhile_append_dropWhile _ Char.isDigit cs
    have behind : cs.drop (cs.takeWhile Char.isDigit).length = cs.dropWhile Char.isDigit := by
      have size : (cs.takeWhile Char.isDigit).length = _ := rfl
      have dropped : (cs.takeWhile Char.isDigit ++ cs.dropWhile Char.isDigit).drop _ = _ := List.drop_left' size
      rwa [cut] at dropped
    rw [← left, behind]
    exact ⟨_, cut.symm, ⟨fun c => List.mem_takeWhile_imp, some, narrow, value, value ▸ below⟩, digitsLeft cs⟩
  · rintro ⟨digits, rfl, numeral, ends⟩
    have written : digits.isEmpty = false := List.isEmpty_eq_false_iff.mpr numeral.some
    simp only [number?, digitsTaken numeral.only ends, numeral.value, List.drop_left, written,
      Nat.not_lt_of_le numeral.narrow, Nat.not_le_of_lt numeral.below, decide_false, Bool.or_self, Bool.false_eq_true,
      if_false]

theorem digitValue {c : Char} (digit : c.isDigit) : c.toNat - 48 < 10 ∧ Nat.toDigits 10 (c.toNat - 48) = [c] := by
  have bounds : 48 ≤ c.toNat ∧ c.toNat ≤ 57 := Char.isDigit_iff_toNat.mp digit
  have small : c.toNat - 48 < 10 := by omega
  refine ⟨small, ?_⟩
  rw [Nat.toDigits_of_lt_base small]
  refine congrArg (· :: []) (Char.toNat_inj.mp ?_)
  rw [Nat.toNat_digitChar_of_lt_ten small]
  omega

theorem digitsBehind {n : Nat} (positive : 0 < n) {digits : List Char} (only : ∀ c ∈ digits, c.isDigit) :
    Nat.toDigits 10 n ++ digits = Nat.toDigits 10 (digits.foldl (fun n c => n * 10 + (c.toNat - 48)) n) := by
  induction digits generalizing n with
  | nil => exact List.append_nil _
  | cons c rest ih =>
    obtain ⟨digit, others⟩ := List.forall_mem_cons.mp only
    obtain ⟨small, rebuilt⟩ := digitValue digit
    rw [List.foldl_cons, ← ih (by omega) others, Nat.mul_comm n,
      ← Nat.toDigits_append_toDigits (by decide) positive small, rebuilt, List.append_assoc, List.singleton_append]

theorem decimalInverse {c : Char} {digits : List Char} (only : ∀ d ∈ c :: digits, d.isDigit)
    (leads : c = '0' → digits = []) : Nat.toDigits 10 (decimal (c :: digits)) = c :: digits := by
  obtain ⟨digit, others⟩ := List.forall_mem_cons.mp only
  by_cases zero : c = '0'
  · rw [leads zero, zero]
    decide
  · have least : 48 ≤ c.toNat := (Char.isDigit_iff_toNat.mp digit).1
    have other : c.toNat ≠ 48 := fun same => zero (Char.toNat_inj.mp same)
    have positive : 0 < c.toNat - 48 := by omega
    rw [decimal, List.foldl_cons, Nat.zero_mul, Nat.zero_add, ← digitsBehind positive others, (digitValue digit).2,
      List.singleton_append]

end Numbers

section Dotted

def ReadsOctets (octet? : List Char → Option (Nat × List Char)) (Spelled : Nat → List Char → Prop) : Prop :=
  ∀ cs n rest, octet? cs = some (n, rest) ↔ ∃ digits, cs = digits ++ rest ∧ Spelled n digits ∧ Ends rest

def Loose (n : Nat) (digits : List Char) : Prop := Numeral 3 256 n digits

def Strict (n : Nat) (digits : List Char) : Prop := n < 256 ∧ digits = Nat.toDigits 10 n

theorem looseReads : ReadsOctets looseOctet? Loose := fun _ _ _ => numberIff

theorem strictLoose {n : Nat} {digits : List Char} (strict : Strict n digits) : Loose n digits := by
  obtain ⟨below, rfl⟩ := strict
  exact digitsNumeral (by decide) (Nat.lt_trans below (by decide)) below

theorem leadingZero : ∀ n < 256, (Nat.toDigits 10 n).head? = some '0' → Nat.toDigits 10 n = ['0'] := by decide +kernel

theorem strictIff {cs rest : List Char} {n : Nat} : strictOctet? cs = some (n, rest) ↔
    looseOctet? cs = some (n, rest) ∧ ∀ c more, cs = '0' :: c :: more → ¬ c.isDigit := by
  unfold strictOctet?
  split
  · rename_i c more
    by_cases digit : c.isDigit
    · simp [digit]
    · rw [if_neg digit]
      refine ⟨fun read => ⟨read, fun d others same => ?_⟩, And.left⟩
      cases same
      exact digit
  · rename_i unled
    exact ⟨fun read => ⟨read, fun c more same => absurd same (unled c more)⟩, And.left⟩

theorem strictReads : ReadsOctets strictOctet? Strict := by
  intro cs n rest
  rw [strictIff]
  constructor
  · rintro ⟨read, unled⟩
    obtain ⟨digits, rfl, numeral, ends⟩ := (looseReads cs n rest).mp read
    refine ⟨digits, rfl, ⟨numeral.below, ?_⟩, ends⟩
    obtain ⟨c, more, rfl⟩ := List.exists_cons_of_ne_nil numeral.some
    rw [← numeral.value, decimalInverse numeral.only]
    rintro rfl
    cases more with
    | nil => rfl
    | cons d others => exact absurd (numeral.only d (by simp)) (unled d (others ++ rest) rfl)
  · rintro ⟨digits, rfl, strict, ends⟩
    refine ⟨(looseReads _ n rest).mpr ⟨digits, rfl, strictLoose strict, ends⟩, fun c more same => ?_⟩
    obtain ⟨below, rfl⟩ := strict
    -- The zero is the whole octet, so what stands behind it is no digit of it.
    have zero : Nat.toDigits 10 n = ['0'] := by
      refine leadingZero n below ?_
      obtain ⟨digit, digits, written⟩ := List.exists_cons_of_ne_nil (@Nat.toDigits_ne_nil n 10)
      rw [written] at same ⊢
      exact congrArg some (List.cons.inj same).1
    rw [zero, List.singleton_append] at same
    refine ends c ?_
    rw [(List.cons.inj same).2]
    rfl

theorem octetBehind {o : Nat} (octet : o < 256) (n k : Nat) : n <<< (8 + k) ||| o <<< k = (n * 256 + o) <<< k := by
  rw [Nat.shiftLeft_add, ← Nat.shiftLeft_or_distrib, ← Nat.shiftLeft_add_eq_or_of_lt octet,
    Nat.shiftLeft_eq n 8]

theorem ofOctetsValue {a b c d : Nat} (first : a < 256) (second : b < 256) (third : c < 256) (fourth : d < 256) :
    (ofOctets a b c d).toNat = ((a * 256 + b) * 256 + c) * 256 + d := by
  have shifted (o : Nat) (k : UInt32) (octet : o < 256) (fits : k.toNat ≤ 24) : (o.toUInt32 <<< k).toNat = o <<< k.toNat := by
    have bound : o <<< k.toNat < 256 * 2 ^ 24 := by
      rw [Nat.shiftLeft_eq]
      exact Nat.mul_lt_mul_of_lt_of_le octet (Nat.pow_le_pow_right (by decide) fits) (by decide)
    have value : o.toUInt32.toNat = o := Nat.mod_eq_of_lt (by omega)
    rw [UInt32.toNat_shiftLeft, value, Nat.mod_eq_of_lt (by omega : k.toNat < 32), Nat.mod_eq_of_lt (by omega)]
  have low : d.toUInt32.toNat = d := Nat.mod_eq_of_lt (by omega)
  have high := octetBehind second a 16
  have middle := octetBehind third (a * 256 + b) 8
  have whole := octetBehind fourth ((a * 256 + b) * 256 + c) 0
  simp only [Nat.reduceAdd, Nat.shiftLeft_zero] at high middle whole
  simp only [ofOctets, UInt32.toNat_or]
  rw [shifted a 24 first (by decide), shifted b 16 second (by decide), shifted c 8 third (by decide), low]
  simp only [UInt32.reduceToNat]
  rw [high, middle, whole]

theorem octetsValue (a : UInt32) :
    octets a = [a.toNat / 2 ^ 24, a.toNat / 2 ^ 16 % 256, a.toNat / 2 ^ 8 % 256, a.toNat % 256] := by
  simp [octets, Nat.shiftRight_eq_div_pow]

theorem octetsCases (a : UInt32) : ∃ w x y z, w < 256 ∧ x < 256 ∧ y < 256 ∧ z < 256 ∧
    octets a = [w, x, y, z] ∧ ofOctets w x y z = a := by
  have bound := a.toNat_lt
  have first : a.toNat / 2 ^ 24 < 256 := by omega
  have low (n : Nat) : n % 256 < 256 := Nat.mod_lt _ (by decide)
  refine ⟨_, _, _, _, first, low _, low _, low _, octetsValue a, UInt32.toNat_inj.mp ?_⟩
  rw [ofOctetsValue first (low _) (low _) (low _)]
  omega

theorem textChars {a : UInt32} {w x y z : Nat} (spelled : octets a = [w, x, y, z]) :
    (text a).toList = Nat.toDigits 10 w ++ '.' :: (Nat.toDigits 10 x ++ '.' :: (Nat.toDigits 10 y ++
      '.' :: Nat.toDigits 10 z)) := by
  simp only [text, spelled, String.toList_intercalate, List.map_cons, List.map_nil, Nat.toString_eq_ofList_toDigits,
    String.toList_ofList]
  simp

theorem expectIff {c : Char} {cs rest : List Char} : expect c cs = some rest ↔ cs = c :: rest := by
  cases cs with
  | nil => simp [expect]
  | cons d more =>
    by_cases same : c = d
    · simp [expect, same]
    · simp [expect, same, Ne.symm same]

inductive Dotted (Spelled : Nat → List Char → Prop) : UInt32 → List Char → Prop where
  | octets {w x y z first second third fourth} (a : Spelled w first) (b : Spelled x second) (c : Spelled y third)
      (d : Spelled z fourth) :
      Dotted Spelled (ofOctets w x y z) (first ++ '.' :: (second ++ '.' :: (third ++ '.' :: fourth)))

theorem dottedIff {octet? : List Char → Option (Nat × List Char)} {Spelled : Nat → List Char → Prop}
    (reads : ReadsOctets octet? Spelled) {cs rest : List Char} {a : UInt32} : dotted? octet? cs = some (a, rest) ↔
      ∃ address, cs = address ++ rest ∧ Dotted Spelled a address ∧ Ends rest := by
  constructor
  · intro read
    simp only [dotted?, Option.bind_eq_bind, Option.bind_eq_some_iff, expectIff, Prod.exists] at read
    obtain ⟨w, _, first, _, rfl, x, _, second, _, rfl, y, _, third, _, rfl, z, _, fourth, same⟩ := read
    obtain ⟨ws, rfl, one, -⟩ := (reads _ _ _).mp first
    obtain ⟨xs, rfl, two, -⟩ := (reads _ _ _).mp second
    obtain ⟨ys, rfl, three, -⟩ := (reads _ _ _).mp third
    obtain ⟨zs, rfl, four, ends⟩ := (reads _ _ _).mp fourth
    cases same
    exact ⟨_, by simp, .octets one two three four, ends⟩
  · rintro ⟨_, rfl, ⟨one, two, three, four⟩, ends⟩
    have first {n digits} (octet : Spelled n digits) (more : List Char) :
        octet? (digits ++ '.' :: more) = some (n, '.' :: more) := (reads _ _ _).mpr ⟨digits, rfl, octet, endsDot more⟩
    have last := (reads _ _ _).mpr ⟨_, rfl, four, ends⟩
    simp only [dotted?, List.append_assoc, List.cons_append, first one, first two, first three, last, expect, if_true,
      Option.bind_eq_bind, Option.bind_some]

theorem textDotted (a : UInt32) : Dotted Strict a (text a).toList := by
  obtain ⟨w, x, y, z, first, second, third, fourth, spelled, whole⟩ := octetsCases a
  rw [textChars spelled, ← whole]
  exact .octets ⟨first, rfl⟩ ⟨second, rfl⟩ ⟨third, rfl⟩ ⟨fourth, rfl⟩

theorem dottedLoose {a : UInt32} {cs : List Char} (dotted : Dotted Strict a cs) : Dotted Loose a cs := by
  cases dotted with
  | octets a b c d => exact .octets (strictLoose a) (strictLoose b) (strictLoose c) (strictLoose d)

theorem dottedText {a : UInt32} {cs : List Char} (dotted : Dotted Strict a cs) : cs = (text a).toList := by
  cases dotted with
  | @octets w x y z _ _ _ _ a b c d =>
    obtain ⟨first, rfl⟩ := a
    obtain ⟨second, rfl⟩ := b
    obtain ⟨third, rfl⟩ := c
    obtain ⟨fourth, rfl⟩ := d
    refine (textChars ?_).symm
    rw [octetsValue, ofOctetsValue first second third fourth]
    simp only [List.cons.injEq, and_true]
    omega

theorem ofTextIff {a : UInt32} {cs : List Char} : ofText? cs = some a ↔ cs = (text a).toList := by
  have read := @dottedIff _ _ strictReads cs [] a
  simp only [List.append_nil] at read
  constructor
  · intro whole
    unfold ofText? at whole
    split at whole <;> try contradiction
    rename_i dotted
    cases whole
    obtain ⟨_, rfl, strict, -⟩ := read.mp dotted
    exact dottedText strict
  · rintro rfl
    rw [ofText?, read.mpr ⟨_, rfl, textDotted a, nofun⟩]

theorem ofTextRead (a : UInt32) : ofText? (text a).toList = some a := ofTextIff.mpr rfl

theorem textDigits (a : UInt32) : ∀ c ∈ (text a).toList, c.isDigit ∨ c = '.' := by
  obtain ⟨w, x, y, z, -, -, -, -, spelled, -⟩ := octetsCases a
  rw [textChars spelled]
  simp only [List.mem_append, List.mem_cons]
  rintro c (here | rfl | here | rfl | here | rfl | here)
  · exact .inl (digitsOnly w c here)
  · exact .inr rfl
  · exact .inl (digitsOnly x c here)
  · exact .inr rfl
  · exact .inl (digitsOnly y c here)
  · exact .inr rfl
  · exact .inl (digitsOnly z c here)

end Dotted
end TlsCensus.Address
