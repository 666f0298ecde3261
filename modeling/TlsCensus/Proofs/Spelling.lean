import TlsCensus.Bytes
import TlsCensus.Text.Blank
import Mathlib.Data.List.DropRight

/-! Texts as characters and as octets. A text has one inner part without blank ends, and a
character below 128 is the one octet of its number while all octets of others lie above. -/
namespace TlsCensus

namespace Text

structure Trimmed (whole inner : List Char) : Prop where
  ends : ∃ front back, whole = front ++ inner ++ back ∧ (∀ c ∈ front, isBlank c) ∧ ∀ c ∈ back, isBlank c
  first : ∀ c ∈ inner.head?, ¬ isBlank c
  last : ∀ c ∈ inner.getLast?, ¬ isBlank c

theorem trimSides (cs : List Char) : trimChars cs = (cs.dropWhile isBlank).rdropWhile isBlank := rfl

theorem frontLeft (cs : List Char) : ∀ c ∈ (cs.dropWhile isBlank).head?, ¬ isBlank c := by
  intro c leads
  have first := List.head?_dropWhile_not isBlank cs
  rw [Option.mem_def.mp leads] at first
  exact Bool.not_eq_true _ ▸ first

theorem frontKept {cs : List Char} (clean : ∀ c ∈ cs.head?, ¬ isBlank c) : cs.dropWhile isBlank = cs := by
  cases cs with
  | nil => rfl
  | cons c rest => rw [List.dropWhile_cons, if_neg (clean c rfl)]

theorem trimmedChars (cs : List Char) : Trimmed cs (trimChars cs) := by
  rw [trimSides]
  have first := frontLeft cs
  generalize left : cs.dropWhile isBlank = inner at first
  refine ⟨⟨cs.takeWhile isBlank, inner.rtakeWhile isBlank, ?_, ?_, ?_⟩, ?_, ?_⟩
  · rw [List.append_assoc, List.rdropWhile_append_rtakeWhile, ← left, List.takeWhile_append_dropWhile]
  · exact fun c => List.mem_takeWhile_imp
  · exact fun c => List.mem_rtakeWhile_imp
  · intro c leads
    -- What the right end leaves begins with what it was given begins with.
    obtain ⟨back, whole⟩ := List.rdropWhile_prefix isBlank inner
    refine first c ?_
    rw [← whole, List.head?_append, Option.mem_def.mp leads]
    rfl
  · rw [List.rdropWhile, List.getLast?_reverse]
    exact frontLeft inner.reverse

theorem trimmedOnly {whole inner : List Char} (trimmed : Trimmed whole inner) : trimChars whole = inner := by
  obtain ⟨⟨front, back, rfl, before, behind⟩, first, last⟩ := trimmed
  rw [trimSides, List.append_assoc, List.dropWhile_append_of_pos before]
  have backLess : (inner ++ back).rdropWhile isBlank = inner := by
    rw [List.rdropWhile, List.reverse_append, List.dropWhile_append_of_pos (by simpa using behind),
      frontKept (by rwa [List.head?_reverse]), List.reverse_reverse]
  cases inner with
  | nil => rw [List.nil_append, List.dropWhile_eq_nil_iff.mpr behind, List.rdropWhile_nil]
  | cons c more => rw [frontKept (by simpa using first), backLess]

theorem narrowAll {holds : Char → Prop} (each : ∀ n < 128, holds (Char.ofNat n)) : ∀ c : Char, c.toNat < 128 → holds c := by
  intro c narrow
  have here := each c.toNat narrow
  rwa [Char.ofNat_toNat] at here

end Text

namespace Bytes

theorem ofTextChars (s : String) : ofText s = s.toList.flatMap String.utf8EncodeChar := by
  rw [ofText, String.toUTF8_eq_toByteArray, ← String.utf8Encode_toList, List.utf8Encode, List.data_toByteArray]

theorem narrowChar {c : Char} (narrow : c.toNat < 128) : String.utf8EncodeChar c = [c.toNat.toUInt8] := by
  have small : c.val.toNat ≤ 127 := Nat.le_of_lt_succ narrow
  rw [String.utf8EncodeChar, if_pos small]
  rfl

theorem wideChar {c : Char} (wide : 128 ≤ c.toNat) : ∀ b ∈ String.utf8EncodeChar c, 0x80 ≤ b := by
  have octet (n : Nat) (high : 128 ≤ n) (fits : n < 256) : 0x80 ≤ UInt8.ofNat n := by
    simp [UInt8.le_iff_toNat_le]
    omega
  have large : ¬ c.val.toNat ≤ 127 := Nat.not_le_of_lt wide
  rw [String.utf8EncodeChar, if_neg large]
  split <;> try split
  all_goals simp only [List.forall_mem_cons]
  · exact ⟨octet _ (by omega) (by omega), octet _ (by omega) (by omega), nofun⟩
  · exact ⟨octet _ (by omega) (by omega), octet _ (by omega) (by omega), octet _ (by omega) (by omega), nofun⟩
  · exact ⟨octet _ (by omega) (by omega), octet _ (by omega) (by omega), octet _ (by omega) (by omega),
      octet _ (by omega) (by omega), nofun⟩

end Bytes

end TlsCensus
