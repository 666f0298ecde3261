import TlsCensus.Triage
import TlsCensus.Proofs.DottedText
import TlsCensus.Proofs.ReportMembers
import TlsCensus.Proofs.Spelling
import Mathlib

/-! The text of a listing. No value of an entry holds a character that would be quoted or escaped,
so a listing of either format is cut into its lines and each line into its fields, which are the
same in both and read back as the entry. -/
namespace TlsCensus

namespace Text

def IsPlain (c : Char) : Prop := c.isDigit ∨ 'a' ≤ c ∧ c ≤ 'z' ∨ c ∈ ['.', '-', '(', ')', '_']

instance (c : Char) : Decidable (IsPlain c) := by
  unfold IsPlain
  infer_instance

abbrev Plain (s : String) : Prop := ∀ c ∈ s.toList, IsPlain c

def marks : List Char := ['\n', '\r', ',', ':', '"', '\\', '\x7b', '\x7d']

theorem plainBelow {c : Char} (plain : IsPlain c) : c.toNat < 128 := by
  rcases plain with digit | ⟨-, most⟩ | mark
  · exact Nat.lt_of_le_of_lt (Char.isDigit_iff_toNat.mp digit).2 (by decide)
  · exact Nat.lt_of_le_of_lt (UInt32.le_iff_toNat_le.mp most) (by decide)
  · have narrow : ∀ c ∈ ['.', '-', '(', ')', '_'], c.toNat < 128 := by simp
    exact narrow c mark

theorem plainKept {c : Char} (plain : IsPlain c) : JsonTree.escapedChar c = [c] ∧ c ∉ marks := by
  have narrow : ∀ c : Char, c.toNat < 128 → IsPlain c → JsonTree.escapedChar c = [c] ∧ c ∉ marks :=
    narrowAll (by decide +kernel)
  exact narrow c (plainBelow plain) plain

theorem plainWithout {s : String} (plain : Plain s) {c : Char} (mark : c ∈ marks) : c ∉ s.toList := fun here =>
  (plainKept (plain c here)).2 mark

theorem plainQuoted {s : String} (plain : Plain s) : (JsonTree.quoted s).toList = '"' :: s.toList ++ ['"'] := by
  rw [JsonTree.quoted, String.toList_ofList, List.flatMap_congr fun c here => (plainKept (plain c here)).1,
    List.flatMap_singleton']

theorem plainAppend {s t : String} (first : Plain s) (next : Plain t) : Plain (s ++ t) := by
  intro c here
  rw [String.toList_append, List.mem_append] at here
  exact here.elim (first c) (next c)

theorem plainNat (n : Nat) : Plain n.repr := by
  intro c here
  rw [Nat.toList_repr] at here
  exact .inl (Address.digitsOnly n c here)

theorem plainInt (n : Int) : Plain n.repr := by
  rw [Int.repr_eq_if]
  split
  · exact plainNat _
  · exact plainAppend (by simp [Plain, IsPlain]) (plainNat _)

end Text

section Labels

theorem ResultCode.labelPlain (code : Int64) : Text.Plain (labelOfStored code) := by
  cases known : ofStored? code with
  | none =>
    rw [labelOfNumber known, Int.toString_eq_repr]
    have front : Text.Plain "unknown(" := by simp [Text.Plain, Text.IsPlain]
    have back : Text.Plain ")" := by simp [Text.Plain, Text.IsPlain]
    exact Text.plainAppend (Text.plainAppend front (Text.plainInt _)) back
  | some result =>
    rw [labelOfKnown known]
    cases result <;> simp [label, Text.Plain, Text.IsPlain]

def ResultCode.ofLabel? (s : String) : Option Int64 :=
  match all.find? (·.label == s) with
  | some result => some result.stored
  | none => (String.ofList (s.toList.drop 8).dropLast).toInt?.map Int64.ofInt

theorem ResultCode.labelRead (code : Int64) : ofLabel? (labelOfStored code) = some code := by
  cases known : ofStored? code with
  | none =>
    have numbered := labelOfNumber known
    -- A number in its place keeps the text apart from every label.
    have unlisted : all.find? (·.label == labelOfStored code) = none := by
      refine List.find?_eq_none.mpr fun result _ same => labelKnown result (toString code.toInt) ?_
      rw [← numbered]
      exact beq_iff_eq.mp same
    have inner : ((labelOfStored code).toList.drop 8).dropLast = code.toInt.repr.toList := by
      simp [numbered]
    rw [ofLabel?, unlisted, inner, String.ofList_toList]
    simp
  | some result =>
    have listed : all.find? (·.label == result.label) = some result := by cases result <;> decide +kernel
    rw [ofLabel?, labelOfKnown known, listed]
    exact congrArg some (ofStoredSome known)

def Capture.ResponseKind.ofLabel? (s : String) : Option ResponseKind :=
  [empty, handshake, other].find? (·.label == s)

theorem Capture.ResponseKind.labelRead (kind : ResponseKind) :
    ofLabel? kind.label = some kind ∧ Text.Plain kind.label := by
  cases kind <;> simp [ofLabel?, label, Text.Plain, Text.IsPlain]

end Labels

namespace JsonTree

def memberText (member : String × JsonTree) : String := quoted member.1 ++ ":" ++ member.2.compact

theorem membersJoined (members : List (String × JsonTree)) :
    compactMembers members = ",".intercalate (members.map memberText) := by
  induction members with
  | nil => rfl
  | cons member rest ih =>
    cases rest with
    | nil => simp [compactMembers, memberText]
    | cons next more =>
      rw [List.map_cons] at ih ⊢
      rw [List.map_cons, String.intercalate_cons_cons, ← ih, compactMembers, memberText]
      simp

end JsonTree

namespace Triage

section Reading

def lines (text : String) : List (List Char) := (text.toList.splitOn '\n').dropLast

def cells (line : List Char) : List String := (line.splitOn ',').map String.ofList

def unquoted : List Char → String
  | '"' :: rest => String.ofList rest.dropLast
  | cs => String.ofList cs

def member? (cs : List Char) : Option (String × String) :=
  match cs.splitOn ':' with
  | [key, value] => some (unquoted key, unquoted value)
  | _ => none

def members? : List Char → Option (List (String × String))
  | '\x7b' :: rest => if rest.getLast? = some '\x7d' then (rest.dropLast.splitOn ',').mapM member? else none
  | _ => none

def Format.records? (format : Format) (text : String) : Option (List (List (String × String))) :=
  match format, lines text with
  | .csv, [] => some []
  | .csv, names :: rows => some (rows.map fun row => (cells names).zip (cells row))
  | .jsonLines, rows => rows.mapM members?

end Reading

namespace Entry

def fields (e : Entry) : List (String × String) := names.zip (e.values.map bare)

def ofFields? (fields : List (String × String)) : Option Entry := do
  let address ← Address.ofText? (← fields.lookup "ip").toList
  let port ← (← fields.lookup "port").toNat?
  let fetchedAt ← (← fields.lookup "fetch_time_ms").toNat?
  let result ← ResultCode.ofLabel? (← fields.lookup "result")
  let kind ← Capture.ResponseKind.ofLabel? (← fields.lookup "kind")
  let responseLength ← (← fields.lookup "response_len").toNat?
  some ⟨address, port.toUInt16, fetchedAt.toUInt64, result, kind, responseLength⟩

theorem bareValues (e : Entry) : e.values.map bare = [Address.text e.address, e.port.toNat.repr, e.fetchedAt.toNat.repr,
    ResultCode.labelOfStored e.result, e.kind.label, e.responseLength.repr] := rfl

theorem fieldsRead (e : Entry) : ofFields? e.fields = some e := by
  rw [fields, bareValues]
  simp [ofFields?, names, lookupFirst, Address.ofTextRead, ResultCode.labelRead, Capture.ResponseKind.labelRead]

theorem namesPlain : ∀ name ∈ names, Text.Plain name := by
  simp [names, Text.Plain, Text.IsPlain]

theorem barePlain (e : Entry) : ∀ s ∈ e.values.map bare, Text.Plain s := by
  rw [bareValues]
  have address : Text.Plain (Address.text e.address) := fun c here =>
    (Address.textDigits e.address c here).imp id fun dot => .inr (by simp [dot])
  simp only [List.forall_mem_cons]
  exact ⟨address, Text.plainNat _, Text.plainNat _, ResultCode.labelPlain _,
    (Capture.ResponseKind.labelRead _).2, Text.plainNat _, nofun⟩

theorem valueSpelled (e : Entry) : ∀ v ∈ e.values, v.compact = JsonTree.quoted (bare v) ∨ v.compact = bare v := by
  simp only [values, List.forall_mem_cons]
  exact ⟨.inl rfl, .inr rfl, .inr rfl, .inl rfl, .inl rfl, .inr rfl, nofun⟩

end Entry

section Records

theorem unquotedRead {s : String} (plain : Text.Plain s) :
    unquoted s.toList = s ∧ unquoted (JsonTree.quoted s).toList = s := by
  refine ⟨?_, ?_⟩
  · unfold unquoted
    split
    · rename_i rest same
      exact absurd (same ▸ List.mem_cons_self) (Text.plainWithout plain (by decide : '"' ∈ Text.marks))
    · exact String.ofList_toList
  · rw [Text.plainQuoted plain, List.cons_append, unquoted, List.dropLast_concat, String.ofList_toList]

theorem cutAtCommas {texts : List String} (apart : ∀ s ∈ texts, ',' ∉ s.toList) (written : texts ≠ []) :
    (",".intercalate texts).toList.splitOn ',' = texts.map String.toList := by
  rw [String.toList_intercalate]
  exact List.splitOn_intercalate ',' (List.forall_mem_map.mpr apart) (mt List.map_eq_nil_iff.mp written)

theorem cellsRead {texts : List String} (plain : ∀ s ∈ texts, Text.Plain s) (written : texts ≠ []) :
    cells (",".intercalate texts).toList = texts := by
  rw [cells, cutAtCommas (fun s here => Text.plainWithout (plain s here) (by decide)) written, List.map_map]
  simp

structure Simple (member : String × JsonTree) : Prop where
  key : Text.Plain member.1
  value : Text.Plain (Entry.bare member.2)
  written : member.2.compact = JsonTree.quoted (Entry.bare member.2) ∨ member.2.compact = Entry.bare member.2

theorem quotedWithout {s : String} (plain : Text.Plain s) {c : Char} (mark : c ∈ Text.marks) (other : c ≠ '"') :
    c ∉ (JsonTree.quoted s).toList := by
  rw [Text.plainQuoted plain]
  simpa [other] using Text.plainWithout plain mark

theorem valueRead {member : String × JsonTree} (simple : Simple member) :
    unquoted member.2.compact.toList = Entry.bare member.2 ∧
      ∀ c ∈ Text.marks, c ≠ '"' → c ∉ member.2.compact.toList := by
  obtain ⟨-, plain, quotes | bare⟩ := simple
  · rw [quotes]
    exact ⟨(unquotedRead plain).2, fun c mark other => quotedWithout plain mark other⟩
  · rw [bare]
    exact ⟨(unquotedRead plain).1, fun c mark _ => Text.plainWithout plain mark⟩

theorem memberChars (member : String × JsonTree) :
    (JsonTree.memberText member).toList = (JsonTree.quoted member.1).toList ++ ':' :: member.2.compact.toList := by
  simp [JsonTree.memberText]

theorem memberWithout {member : String × JsonTree} (simple : Simple member) {c : Char} (mark : c ∈ Text.marks)
    (other : c ≠ '"') (colon : c ≠ ':') : c ∉ (JsonTree.memberText member).toList := by
  rw [memberChars, List.mem_append, List.mem_cons, not_or, not_or]
  exact ⟨quotedWithout simple.key mark other, colon, (valueRead simple).2 c mark other⟩

theorem memberRead {member : String × JsonTree} (simple : Simple member) :
    member? (JsonTree.memberText member).toList = some (member.1, Entry.bare member.2) := by
  obtain ⟨value, apart⟩ := valueRead simple
  have cut : (JsonTree.memberText member).toList.splitOn ':' = [(JsonTree.quoted member.1).toList, member.2.compact.toList] := by
    rw [memberChars, List.splitOn_append_cons_self_of_not_mem (quotedWithout simple.key (by decide) (by decide)),
      List.splitOn_eq_singleton (apart ':' (by decide) (by decide))]
  rw [member?, cut]
  exact congrArg some (Prod.ext (unquotedRead simple.key).2 value)

theorem mapMEach {α β γ : Type} {read : β → Option γ} {text : α → β} {found : α → γ} {items : List α}
    (each : ∀ item ∈ items, read (text item) = some (found item)) :
    (items.map text).mapM read = some (items.map found) := by
  induction items with
  | nil => rfl
  | cons item rest ih =>
    rw [List.forall_mem_cons] at each
    rw [List.map_cons, List.mapM_cons, each.1, ih each.2]
    rfl

theorem objectChars (members : List (String × JsonTree)) : (JsonTree.object members).compact.toList =
    '\x7b' :: (",".intercalate (members.map JsonTree.memberText)).toList ++ ['\x7d'] := by
  rw [JsonTree.compact, JsonTree.membersJoined]
  simp

theorem membersRead {members : List (String × JsonTree)} (simple : ∀ member ∈ members, Simple member)
    (written : members ≠ []) : members? (JsonTree.object members).compact.toList =
      some (members.map fun member => (member.1, Entry.bare member.2)) := by
  have apart : ∀ s ∈ members.map JsonTree.memberText, ',' ∉ s.toList :=
    List.forall_mem_map.mpr fun member here => memberWithout (simple member here) (by decide) (by decide) (by decide)
  -- The braces are taken off whatever stands between them.
  have opened (inner : List Char) : members? ('\x7b' :: inner ++ ['\x7d']) = (inner.splitOn ',').mapM member? := by
    rw [List.cons_append]
    simp only [members?, List.getLast?_concat, List.dropLast_concat, if_true]
  rw [objectChars, opened, cutAtCommas apart (mt List.map_eq_nil_iff.mp written), List.map_map]
  exact mapMEach fun member here => memberRead (simple member here)

theorem simpleMembers (e : Entry) : ∀ member ∈ Entry.names.zip e.values, Simple member := by
  intro member here
  obtain ⟨name, value⟩ := List.of_mem_zip here
  exact ⟨Entry.namesPlain _ name, Entry.barePlain e _ (List.mem_map_of_mem value), Entry.valueSpelled e _ value⟩

end Records

section Lines

theorem lineRead {line : String} (inner : '\n' ∉ line.toList) (rest : String) :
    lines (line ++ "\n" ++ rest) = line.toList :: lines rest := by
  have cut : (line ++ "\n" ++ rest).toList = line.toList ++ '\n' :: rest.toList := by simp
  rw [lines, cut, List.splitOn_append_cons_self_of_not_mem inner, List.dropLast_cons_of_ne_nil (List.splitOn_ne_nil _ _)]
  rfl

theorem linesRead {texts : List String} (inner : ∀ s ∈ texts, '\n' ∉ s.toList) :
    lines (String.join (texts.map (· ++ "\n"))) = texts.map String.toList := by
  induction texts with
  | nil => rfl
  | cons s rest ih =>
    rw [List.forall_mem_cons] at inner
    rw [List.map_cons, String.join_cons, lineRead inner.1, ih inner.2, List.map_cons]

def Format.record : Format → Entry → String
  | .csv, e => ",".intercalate (e.values.map Entry.bare)
  | .jsonLines, e => (JsonTree.object (Entry.names.zip e.values)).compact

def Format.heading : Format → List Entry → List String
  | .csv, _ :: _ => [",".intercalate Entry.names]
  | _, _ => []

theorem textJoined (format : Format) (entries : List Entry) : format.text entries =
    String.join ((format.heading entries ++ entries.map format.record).map (· ++ "\n")) := by
  rw [List.map_append, List.map_map]
  cases entries with
  | nil => cases format <;> rfl
  | cons e rest =>
    cases format with
    | csv => exact (String.join_cons).symm
    | jsonLines => rfl

theorem separatedWithout {texts : List String} {c : Char} (each : ∀ s ∈ texts, c ∉ s.toList) (other : c ≠ ',') :
    c ∉ (",".intercalate texts).toList := by
  induction texts with
  | nil => simp
  | cons s rest ih =>
    rw [List.forall_mem_cons] at each
    cases rest with
    | nil => simpa using each.1
    | cons next more =>
      rw [String.intercalate_cons_cons, String.toList_append, String.toList_append, List.mem_append, List.mem_append]
      rintro ((here | comma) | behind)
      · exact each.1 here
      · exact other (List.mem_singleton.mp comma)
      · exact ih each.2 behind

theorem recordLine (format : Format) (e : Entry) : '\n' ∉ (format.record e).toList := by
  cases format with
  | csv =>
    rw [Format.record]
    exact separatedWithout (fun s here => Text.plainWithout (Entry.barePlain e s here) (by decide)) (by decide)
  | jsonLines =>
    have each : ∀ s ∈ (Entry.names.zip e.values).map JsonTree.memberText, '\n' ∉ s.toList :=
      List.forall_mem_map.mpr fun member here =>
        memberWithout (simpleMembers e member here) (by decide) (by decide) (by decide)
    rw [Format.record, objectChars, List.cons_append, List.mem_cons, List.mem_append, List.mem_singleton, not_or, not_or]
    exact ⟨by decide, separatedWithout each (by decide), by decide⟩

theorem headingLine (format : Format) (entries : List Entry) : ∀ s ∈ format.heading entries, '\n' ∉ s.toList := by
  unfold Format.heading
  split
  · rw [List.forall_mem_singleton]
    exact separatedWithout (fun s here => Text.plainWithout (Entry.namesPlain s here) (by decide)) (by decide)
  · exact nofun

theorem textLines (format : Format) (entries : List Entry) :
    lines (format.text entries) = (format.heading entries ++ entries.map format.record).map String.toList := by
  rw [textJoined, linesRead]
  intro s here
  rcases List.mem_append.mp here with heading | record
  · exact headingLine format entries s heading
  · obtain ⟨e, -, rfl⟩ := List.mem_map.mp record
    exact recordLine format e

theorem recordsRead (format : Format) (entries : List Entry) :
    format.records? (format.text entries) = some (entries.map Entry.fields) := by
  rw [Format.records?.eq_def, textLines, List.map_append, List.map_map]
  cases format with
  | csv =>
    cases entries with
    | nil => rfl
    | cons first rest =>
      have row (e : Entry) : (cells (",".intercalate Entry.names).toList).zip
          (cells (Format.csv.record e).toList) = e.fields := by
        rw [cellsRead Entry.namesPlain (by decide), Format.record,
          cellsRead (Entry.barePlain e) (by simp [Entry.values]), Entry.fields]
      have heading : Format.csv.heading (first :: rest) = [",".intercalate Entry.names] := rfl
      rw [heading, List.map_singleton, List.singleton_append]
      simp only [List.map_map, Function.comp_def, row]
  | jsonLines =>
    have row (e : Entry) : members? (Format.jsonLines.record e).toList = some e.fields := by
      rw [Format.record, membersRead (simpleMembers e) (by simp [Entry.values, Entry.names]), Entry.fields, List.zip_map_right]
      rfl
    have heading : Format.jsonLines.heading entries = [] := by cases entries <;> rfl
    rw [heading, List.map_nil, List.nil_append]
    exact mapMEach fun e _ => row e

end Lines

end Triage

end TlsCensus
