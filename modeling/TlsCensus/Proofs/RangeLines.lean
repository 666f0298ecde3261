import TlsCensus.RangeList
import TlsCensus.Proofs.Spelling

/-! Range lists with all that may be written around their entries. A line is an entry between
blanks, or blanks alone, with or without a comment; it ends in a line feed, in a carriage return
and a line feed, or with the text. Every text is made of such lines, and the entries that stand
on them are what is read, in order. -/
namespace TlsCensus.RangeList

structure IsEntry (e : String) : Prop where
  something : e.toList ≠ []
  first : ∀ c ∈ e.toList.head?, ¬ Text.isBlank c
  last : ∀ c ∈ e.toList.getLast?, ¬ Text.isBlank c
  uncommented : '#' ∉ e.toList
  oneLine : '\n' ∉ e.toList

theorem isEntryIff (e : String) : (e.toList ≠ [] ∧ e.toList.head?.any Text.isBlank = false ∧
    e.toList.getLast?.any Text.isBlank = false ∧ '#' ∉ e.toList ∧ '\n' ∉ e.toList) ↔ IsEntry e := by
  have bare (o : Option Char) : o.any Text.isBlank = false ↔ ∀ c ∈ o, ¬ Text.isBlank c := by
    cases o <;> simp
  rw [bare, bare]
  exact ⟨fun ⟨something, first, last, uncommented, oneLine⟩ => ⟨something, first, last, uncommented, oneLine⟩,
    fun entry => ⟨entry.something, entry.first, entry.last, entry.uncommented, entry.oneLine⟩⟩

instance (e : String) : Decidable (IsEntry e) := decidable_of_decidable_of_iff (isEntryIff e)

def IsPadding (cs : List Char) : Prop := ∀ c ∈ cs, Text.isBlank c ∧ c ≠ '\n'

instance (cs : List Char) : Decidable (IsPadding cs) := List.decidableBAll (fun c => Text.isBlank c ∧ c ≠ '\n') cs

inductive IsComment : List Char → Prop where
  | nothing : IsComment []
  | hash {rest} (oneLine : '\n' ∉ rest) : IsComment ('#' :: rest)

def IsEnding (cs : List Char) : Prop := cs = ['\n'] ∨ cs = ['\r', '\n']

inductive Line : Option String → List Char → Prop where
  | bare {padding comment} (blank : IsPadding padding) (aside : IsComment comment) : Line none (padding ++ comment)
  | bearing {before e after comment} (front : IsPadding before) (entry : IsEntry e) (back : IsPadding after)
      (aside : IsComment comment) : Line (some e) (before ++ e.toList ++ after ++ comment)

inductive Lines : List String → List Char → Prop where
  | nothing : Lines [] []
  | last {e line} (here : Line e line) : Lines e.toList line
  | more {e line ending es rest} (here : Line e line) (ends : IsEnding ending) (tail : Lines es rest) :
      Lines (e.toList ++ es) (line ++ ending ++ rest)

section Line

theorem IsPadding.uncommented {cs : List Char} (padding : IsPadding cs) : '#' ∉ cs := fun mem =>
  absurd (padding _ mem).1 (by decide)

theorem IsPadding.oneLine {cs : List Char} (padding : IsPadding cs) : '\n' ∉ cs := fun mem => (padding _ mem).2 rfl

theorem IsPadding.withReturn {cs : List Char} (padding : IsPadding cs) : IsPadding (cs ++ ['\r']) := by
  intro c mem
  rcases List.mem_append.mp mem with old | new
  · exact padding c old
  · rw [List.mem_singleton.mp new]
    decide

theorem IsComment.nothingBefore {cs : List Char} (aside : IsComment cs) : cs.takeWhile (· ≠ '#') = [] := by
  cases aside <;> rfl

theorem IsComment.oneLine {cs : List Char} (aside : IsComment cs) : '\n' ∉ cs := by
  cases aside with
  | nothing => exact List.not_mem_nil
  | hash oneLine => simpa using oneLine

theorem IsComment.withReturn {cs : List Char} (aside : IsComment cs) (filled : cs ≠ []) : IsComment (cs ++ ['\r']) := by
  cases aside with
  | nothing => contradiction
  | hash oneLine => exact .hash (by simpa using oneLine)

theorem commentLeft {line : List Char} (oneLine : '\n' ∉ line) : IsComment (line.dropWhile (· ≠ '#')) := by
  cases left : line.dropWhile (· ≠ '#') with
  | nil => exact .nothing
  | cons c rest =>
    have hash := List.head?_dropWhile_not (· ≠ '#') line
    rw [left] at hash
    obtain rfl : c = '#' := by simpa using hash
    refine .hash fun mem => oneLine ?_
    exact (List.dropWhile_sublist _).mem (left ▸ List.mem_cons_of_mem _ mem)

theorem Line.oneLine {e : Option String} {line : List Char} (here : Line e line) : '\n' ∉ line := by
  cases here with
  | bare blank aside => simp [blank.oneLine, aside.oneLine]
  | bearing front entry back aside => simp [front.oneLine, entry.oneLine, back.oneLine, aside.oneLine]

/- A carriage return in front of the line feed belongs to the comment, or to the blanks. -/
theorem Line.withReturn {e : Option String} {line : List Char} (here : Line e line) : Line e (line ++ ['\r']) := by
  cases here with
  | @bare _ comment blank aside =>
    rcases eq_or_ne comment [] with rfl | filled
    · simpa using Line.bare blank.withReturn .nothing
    · simpa using Line.bare blank (aside.withReturn filled)
  | @bearing _ _ _ comment front entry back aside =>
    rcases eq_or_ne comment [] with rfl | filled
    · simpa using Line.bearing front entry back.withReturn .nothing
    · simpa using Line.bearing front entry back (aside.withReturn filled)

theorem entryTrimmed {whole inner comment : List Char} (uncommented : '#' ∉ whole) (aside : IsComment comment)
    (trimmed : Text.Trimmed whole inner) : entry (whole ++ comment) = inner := by
  have kept : ∀ c ∈ whole, decide (c ≠ '#') = true := fun c mem =>
    decide_eq_true fun same => uncommented (same ▸ mem)
  rw [entry, List.takeWhile_append_of_pos kept, aside.nothingBefore, List.append_nil, Text.trimmedOnly trimmed]

theorem Line.entryRead {e : Option String} {line : List Char} (here : Line e line) :
    entry line = (e.map String.toList).getD [] := by
  cases here with
  | bare blank aside =>
    refine entryTrimmed blank.uncommented aside ⟨⟨_, [], by simp, fun c mem => (blank c mem).1, nofun⟩, nofun, nofun⟩
  | @bearing before e after _ front entry back aside =>
    refine entryTrimmed ?_ aside ⟨⟨before, after, rfl, fun c mem => (front c mem).1, fun c mem => (back c mem).1⟩,
      entry.first, entry.last⟩
    simp [front.uncommented, entry.uncommented, back.uncommented]

theorem lineFound {line : List Char} (oneLine : '\n' ∉ line) : ∃ e, Line e line := by
  have cut := @List.takeWhile_append_dropWhile _ (· ≠ '#') line
  have aside := commentLeft oneLine
  have kept : ∀ c ∈ line.takeWhile (· ≠ '#'), c ≠ '#' ∧ c ≠ '\n' := fun c mem =>
    ⟨by simpa using List.mem_takeWhile_imp mem, fun same => oneLine (same ▸ (List.takeWhile_sublist _).mem mem)⟩
  obtain ⟨⟨before, after, whole, leads, trails⟩, first, last⟩ := Text.trimmedChars (line.takeWhile (· ≠ '#'))
  generalize Text.trimChars (line.takeWhile (· ≠ '#')) = inner at whole first last
  rw [whole] at kept cut
  simp only [List.mem_append] at kept
  have front : IsPadding before := fun c mem => ⟨leads c mem, (kept c (.inl (.inl mem))).2⟩
  have back : IsPadding after := fun c mem => ⟨trails c mem, (kept c (.inr mem)).2⟩
  rw [← cut]
  cases inner with
  | nil =>
    refine ⟨none, ?_⟩
    rw [List.append_nil]
    exact .bare (fun c mem => (List.mem_append.mp mem).elim (front c) (back c)) aside
  | cons c rest =>
    have entry : IsEntry (String.ofList (c :: rest)) := by
      constructor <;> rw [String.toList_ofList]
      · exact List.cons_ne_nil _ _
      · exact first
      · exact last
      · exact fun mem => (kept _ (.inl (.inr mem))).1 rfl
      · exact fun mem => (kept _ (.inl (.inr mem))).2 rfl
    refine ⟨some (String.ofList (c :: rest)), ?_⟩
    simpa using Line.bearing front entry back aside

theorem Line.isEntry {e : Option String} {line : List Char} (here : Line e line) : ∀ s ∈ e, IsEntry s := by
  cases here with
  | bare => nofun
  | bearing front entry back aside =>
    rintro s ⟨⟩
    exact entry

end Line

section Lines

theorem splitLinesOn (cs : List Char) : splitLines cs = cs.splitOn '\n' := by
  induction cs with
  | nil => rfl
  | cons c rest ih =>
    rw [splitLines, List.splitOn_eq_splitOnP, List.splitOnP_cons_eq_if_modifyHead, ← List.splitOn_eq_splitOnP, ih]
    obtain ⟨line, more, cut⟩ := List.exists_cons_of_ne_nil (List.splitOn_ne_nil '\n' rest)
    simp only [beq_iff_eq, cut]
    rfl

theorem lastLine {line : List Char} (oneLine : '\n' ∉ line) : splitLines line = [line] := by
  rw [splitLinesOn, List.splitOn_eq_singleton oneLine]

theorem lineBefore {line : List Char} (oneLine : '\n' ∉ line) (rest : List Char) :
    splitLines (line ++ '\n' :: rest) = line :: splitLines rest := by
  rw [splitLinesOn, List.splitOn_append_cons_self_of_not_mem oneLine, splitLinesOn]

theorem Line.entryListed {e : Option String} {line : List Char} (here : Line e line) :
    (([line].map entry).filter (!·.isEmpty)).map String.ofList = e.toList := by
  rw [List.map_singleton, here.entryRead]
  cases e with
  | none => rfl
  | some s =>
    have filled := (here.isEntry s rfl).something
    simp [filled]

theorem Line.entriesCons {e : Option String} {line : List Char} (here : Line e line) (rest : List Char) :
    (entries (line ++ '\n' :: rest)).map String.ofList = e.toList ++ (entries rest).map String.ofList := by
  rw [entries, lineBefore here.oneLine, ← List.singleton_append, List.map_append, List.filter_append, List.map_append,
    here.entryListed, entries]

theorem linesRead {es : List String} {text : List Char} (written : Lines es text) :
    (entries text).map String.ofList = es := by
  induction written with
  | nothing => rfl
  | last here => rw [entries, lastLine here.oneLine, here.entryListed]
  | @more e line ending es rest here ends tail ih =>
    rcases ends with rfl | rfl
    · rw [List.append_assoc, List.singleton_append, here.entriesCons, ih]
    · have returned := here.withReturn.entriesCons rest
      rw [List.append_assoc] at returned ⊢
      exact returned.trans (by rw [ih])

/- By the number of characters: each line feed ends a line that is shorter than the text. -/
theorem linesFound (text : List Char) : ∃ es, Lines es text := by
  by_cases breaks : '\n' ∈ text
  · obtain ⟨line, rest, cut, oneLine⟩ := List.eq_append_cons_of_mem breaks
    obtain ⟨e, here⟩ := lineFound oneLine
    obtain ⟨es, tail⟩ := linesFound rest
    refine ⟨e.toList ++ es, ?_⟩
    rw [cut]
    simpa using Lines.more here (.inl rfl) tail
  · obtain ⟨e, here⟩ := lineFound breaks
    exact ⟨e.toList, .last here⟩
termination_by text.length
decreasing_by
  rw [cut, List.length_append, List.length_cons]
  omega

theorem Lines.areEntries {es : List String} {text : List Char} (written : Lines es text) : ∀ e ∈ es, IsEntry e := by
  induction written with
  | nothing => nofun
  | last here => exact fun e mem => here.isEntry e (Option.mem_toList.mp mem)
  | more here ends tail ih =>
    intro e mem
    rcases List.mem_append.mp mem with first | later
    · exact here.isEntry e (Option.mem_toList.mp first)
    · exact ih e later

end Lines

section Content

theorem textOfBytes (s : String) : (Bytes.ofText s).text? = some s := dif_pos s.isValidUTF8

theorem bytesOfText {content : Bytes} {s : String} (read : content.text? = some s) : content = Bytes.ofText s := by
  unfold Bytes.text? String.fromUTF8? at read
  split at read
  · rw [← Option.some.inj read]
    rfl
  · contradiction

end Content

theorem decoratedEntriesRead :
    (∀ content es, ofBytes? content = some es ↔ ∃ text : String, content = Bytes.ofText text ∧ Lines es text.toList) ∧
    ∀ text, ∃ es, ofBytes? (Bytes.ofText text) = some es ∧ ∀ e ∈ es, IsEntry e := by
  have whole (text : String) : ofBytes? (Bytes.ofText text) = some (ofText text) := by
    rw [ofBytes?, textOfBytes]
    rfl
  refine ⟨fun content es => ⟨fun read => ?_, ?_⟩, fun text => ?_⟩
  · obtain ⟨text, spelled, same⟩ := Option.map_eq_some_iff.mp read
    obtain ⟨listed, written⟩ := linesFound text.toList
    rw [ofText, linesRead written] at same
    exact ⟨text, bytesOfText spelled, same ▸ written⟩
  · rintro ⟨text, rfl, written⟩
    rw [whole, ofText, linesRead written]
  · obtain ⟨listed, written⟩ := linesFound text.toList
    refine ⟨listed, ?_, written.areEntries⟩
    rw [whole, ofText, linesRead written]

theorem decoratedLabRead :
    let text := "# lab\r\n\t192.0.2.0/24 \n\n\u00A010.0.0.0 /8# x"
    let es := ["192.0.2.0/24", "10.0.0.0 /8"]
    Lines es text.toList ∧ ofBytes? (Bytes.ofText text) = some es ∧ ∀ e ∈ es, IsEntry e := by
  intro text es
  have aside : Line none "# lab".toList := @Line.bare [] _ nofun (.hash (by decide))
  have first : Line (some "192.0.2.0/24") "\t192.0.2.0/24 ".toList :=
    @Line.bearing ['\t'] _ [' '] _ (by decide) (by decide) (by decide) .nothing
  have blank : Line none [] := @Line.bare [] _ nofun .nothing
  have last : Line (some "10.0.0.0 /8") "\u00A010.0.0.0 /8# x".toList :=
    @Line.bearing ['\u00A0'] _ [] _ (by decide) (by decide) nofun (.hash (by decide))
  have spelled : text.toList = "# lab".toList ++ ['\r', '\n'] ++ ("\t192.0.2.0/24 ".toList ++ ['\n'] ++
      ([] ++ ['\n'] ++ "\u00A010.0.0.0 /8# x".toList)) := by decide
  have written : Lines es text.toList := by
    rw [spelled]
    exact .more aside (.inr rfl) (.more first (.inl rfl) (.more blank (.inl rfl) (.last last)))
  obtain ⟨read, every⟩ := decoratedEntriesRead
  have here := (read _ _).mpr ⟨text, rfl, written⟩
  obtain ⟨listed, same, entries⟩ := every text
  rw [here, Option.some.injEq] at same
  exact ⟨written, here, same ▸ entries⟩

end TlsCensus.RangeList
