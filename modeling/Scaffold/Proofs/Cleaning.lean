import Scaffold.Proofs.Comments
import Scaffold.Proofs.Inputs

/-!
# Cleaning keeps the words

A documentation is taken apart in two ways. Markers are looked for among the words of the whole
text, and the comment is made from the words of one line after another. Both find the same words:
a line feed is blank, and so is the carriage return that a line end may begin with, so no word
reaches over the end of a line and a line end takes part in none.

All of this comes from one equation, that the words of two texts with a blank between them are
the words of the one and then those of the other. It also reads a cleaned text back. Its lines
are words with single spaces in between, so cleaning finds the same lines again, and since none
of the words is a marker it leaves them as they are.
-/

namespace Scaffold

namespace Text

theorem words_ofList (chars : List Char) :
    words (String.ofList chars) =
      ((chars.splitOnP isBlank).filter fun word => !word.isEmpty).map String.ofList := by
  rw [words, String.toList_ofList]

theorem words_empty : words "" = [] := by
  decide

/-- Words are split at a blank. -/
theorem words_append_blank {blank : Char} (hblank : isBlank blank = true) (s t : List Char) :
    words (String.ofList (s ++ blank :: t)) =
      words (String.ofList s) ++ words (String.ofList t) := by
  rw [words_ofList, words_ofList, words_ofList, List.splitOnP_append_cons s t hblank,
    List.filter_append, List.map_append]

/-- Blanks between texts separate their words and add none. -/
theorem words_intercalate {between : String} {blank : Char} (hbetween : between.toList = [blank])
    (hblank : isBlank blank = true) (parts : List String) :
    words (between.intercalate parts) = parts.flatMap words := by
  induction parts with
  | nil => simp [words_empty]
  | cons first rest ih =>
      by_cases hrest : rest = []
      · simp [hrest]
      · have happend : between.intercalate (first :: rest) =
            String.ofList (first.toList ++ blank :: (between.intercalate rest).toList) := by
          rw [String.intercalate_cons_of_ne_nil hrest, ← String.toList_inj]
          simp [hbetween]
        rw [happend, words_append_blank hblank, String.ofList_toList, String.ofList_toList, ih,
          List.flatMap_cons]

/-- A text without a blank is one word. -/
theorem words_eq_singleton {word : String} (hne : word ≠ "")
    (h : ∀ c ∈ word.toList, isBlank c = false) : words word = [word] := by
  rw [words, List.splitOnP_eq_singleton h]
  simp [hne]

theorem ne_empty_of_mem_words {s word : String} (h : word ∈ words s) : word ≠ "" := by
  obtain ⟨chars, hchars, rfl⟩ := List.mem_map.mp h
  have hne := (List.mem_filter.mp hchars).2
  simpa using hne

/-- Words with spaces between them are read back. -/
theorem words_intercalate_words {s : String} {kept : List String}
    (h : ∀ word ∈ kept, word ∈ words s) : words (" ".intercalate kept) = kept := by
  rw [words_intercalate (by decide : " ".toList = [' ']) (by decide)]
  induction kept with
  | nil => rfl
  | cons word kept ih =>
      obtain ⟨hword, hkept⟩ := List.forall_mem_cons.mp h
      rw [List.flatMap_cons, ih hkept, words_eq_singleton (ne_empty_of_mem_words hword)
        fun c hc => not_blank_of_mem_words hword hc]
      rfl

theorem words_dropReturn (chars : List Char) :
    words (String.ofList (dropReturn chars)) = words (String.ofList chars) := by
  rw [dropReturn]
  split
  · next hlast =>
      have hsplit := words_append_blank (by decide : isBlank '\r' = true) chars.dropLast []
      rw [List.dropLast_append_getLast? '\r' hlast, String.ofList_nil, words_empty,
        List.append_nil] at hsplit
      exact hsplit.symm
  · rfl

theorem flatMap_words_linesOfStretches (stretches : List (List Char)) :
    ((linesOfStretches stretches).map String.ofList).flatMap words =
      (stretches.map String.ofList).flatMap words := by
  fun_induction linesOfStretches stretches with
  | case1 => rfl
  | case2 last hempty =>
      obtain rfl : last = [] := by simpa using hempty
      decide
  | case3 last hempty => rfl
  | case4 stretch rest hrest ih =>
      rw [List.map_cons, List.flatMap_cons, ih, words_dropReturn, List.map_cons, List.flatMap_cons]

/-- The words of a text are the words of its lines. -/
theorem words_eq_flatMap_lines (text : String) : words text = (lines text).flatMap words := by
  have htext : text = "\n".intercalate ((text.toList.splitOn '\n').map String.ofList) := by
    rw [← String.toList_inj, String.toList_intercalate, List.map_map]
    simp [Function.comp_def, List.intercalate_splitOn]
  rw [lines, flatMap_words_linesOfStretches]
  conv => lhs; rw [htext]
  exact words_intercalate (by decide : "\n".toList = ['\n']) (by decide) _

end Text

namespace Schema

open Text (words)

/-- The words that look like a marker, whether they are one or not. -/
def StartsMarker (word : String) : Prop :=
  "B$".toList <+: word.toList

instance (word : String) : Decidable (StartsMarker word) :=
  inferInstanceAs (Decidable ("B$".toList <+: word.toList))

theorem startsMarker_of_ofWord? {word : String} {marker : Marker}
    (h : Marker.ofWord? word = some marker) : StartsMarker word := by
  obtain rfl := Marker.ofWord?_eq_some_iff.mp h
  exact ⟨marker.name.toList, (String.toList_append ..).symm⟩

/-- The words that are markers. -/
def markerWords : List String :=
  ["B$CreatedAt", "B$UpdatedAt", "B$ReadOnly"]

theorem mem_markerWords_iff {word : String} :
    word ∈ markerWords ↔ ∃ marker, Marker.ofWord? word = some marker := by
  simp only [Marker.ofWord?_eq_some_iff]
  constructor
  · intro h
    simp only [markerWords, List.mem_cons, List.not_mem_nil, or_false] at h
    rcases h with rfl | rfl | rfl
    · exact ⟨.createdAt, rfl⟩
    · exact ⟨.updatedAt, rfl⟩
    · exact ⟨.readOnly, rfl⟩
  · rintro ⟨marker, rfl⟩
    cases marker <;> decide

/-- The markers of a text, spelled out again, are those of its words that are markers. -/
theorem map_name_markersOf (text : String) :
    (markersOf (some text)).map (fun marker => "B$" ++ marker.name) =
      (words text).filter (· ∈ markerWords) := by
  rw [markersOf]
  induction words text with
  | nil => rfl
  | cons word rest ih =>
      by_cases hword : word ∈ markerWords
      · obtain ⟨marker, hmarker⟩ := mem_markerWords_iff.mp hword
        rw [List.filterMap_cons_some hmarker, List.map_cons, ih,
          List.filter_cons_of_pos (by simpa using hword), Marker.ofWord?_eq_some_iff.mp hmarker,
          markerStart]
      · have hnone : Marker.ofWord? word = none :=
          Option.eq_none_iff_forall_ne_some.mpr fun marker hmarker =>
            hword (mem_markerWords_iff.mpr ⟨marker, hmarker⟩)
        rw [List.filterMap_cons_none hnone, ih, List.filter_cons_of_neg (by simpa using hword)]

theorem markersOf_eq_nil {text : String} (h : ∀ word ∈ words text, ¬ StartsMarker word) :
    markersOf (some text) = [] :=
  List.filterMap_eq_nil_iff.mpr fun word hword =>
    Option.eq_none_iff_forall_ne_some.mpr fun _ hmarker =>
      h word hword (startsMarker_of_ofWord? hmarker)

end Schema

namespace TypeScript

open Schema (Field StartsMarker markerWords markersOf_eq_nil map_name_markersOf)
open Text (lines words words_eq_flatMap_lines words_intercalate_words)

variable {text cleaned : String}

/-- The words of a text that do not look like a marker. -/
def plainWords (text : String) : List String :=
  (words text).filter fun word => ¬ StartsMarker word

theorem readerWords_eq (line : String) : readerWords line = plainWords line := by
  refine List.filter_congr fun word _ => ?_
  rw [isMarkerWord, decide_not, Bool.eq_iff_iff, Bool.not_eq_true', Bool.not_eq_true',
    decide_eq_false_iff_not, ← Bool.not_eq_true, List.isPrefixOf_iff_prefix]
  rfl

theorem plainWords_eq_flatMap_lines (text : String) :
    plainWords text = (lines text).flatMap plainWords := by
  rw [plainWords, words_eq_flatMap_lines, List.filter_flatMap]
  rfl

theorem words_readerWords (line : String) :
    words (" ".intercalate (readerWords line)) = readerWords line :=
  words_intercalate_words fun _ hword => (List.mem_filter.mp hword).1

theorem intercalate_readerWords_eq_empty {line : String} :
    " ".intercalate (readerWords line) = "" ↔ readerWords line = [] := by
  constructor
  · intro h
    rw [← words_readerWords, h]
    decide
  · intro h
    rw [h]
    decide

/-- A line that is kept has the words of a line of the text, and these in its order. -/
theorem map_words_readerLines (text : String) :
    (readerLines text).map words = ((lines text).map plainWords).filter (· ≠ []) := by
  rw [readerLines]
  induction lines text with
  | nil => rfl
  | cons source sources ih =>
      rw [List.map_cons, List.map_cons]
      by_cases hnone : readerWords source = []
      · rw [List.filter_cons_of_neg (by simpa using intercalate_readerWords_eq_empty.mpr hnone), ih,
          List.filter_cons_of_neg (by simpa [← readerWords_eq] using hnone)]
      · rw [List.filter_cons_of_pos (by simpa using mt intercalate_readerWords_eq_empty.mp hnone),
          List.map_cons, ih, words_readerWords, readerWords_eq,
          List.filter_cons_of_pos (by simpa [← readerWords_eq] using hnone)]

theorem plainWords_eq_nil_iff : plainWords text = [] ↔ ∀ word ∈ words text, StartsMarker word := by
  simp [plainWords]

theorem readerLines_eq_nil_iff : readerLines text = [] ↔ plainWords text = [] := by
  rw [← List.map_eq_nil_iff (f := words), map_words_readerLines, List.filter_eq_nil_iff,
    plainWords_eq_flatMap_lines, List.flatMap_eq_nil_iff, List.forall_mem_map]
  simp

theorem cleanText?_eq_none : cleanText? text = none ↔ readerLines text = [] := by
  rw [cleanText?]
  split
  · next hnone => simp [hnone]
  · next hsome => simpa using hsome

theorem words_of_cleanText? (h : cleanText? text = some cleaned) :
    words cleaned = plainWords text := by
  rw [words_eq_flatMap_lines, lines_of_cleanText? h, List.flatMap_def, map_words_readerLines,
    List.flatten_filter_ne_nil, ← List.flatMap_def, ← plainWords_eq_flatMap_lines]

theorem not_startsMarker_of_cleanText? (h : cleanText? text = some cleaned) :
    ∀ word ∈ words cleaned, ¬ StartsMarker word := by
  intro word hword
  rw [words_of_cleanText? h] at hword
  simpa using (List.mem_filter.mp hword).2

/-- In a line that is kept there is one space between two words and nothing else. -/
theorem intercalate_words {line : String} (h : line ∈ readerLines text) :
    " ".intercalate (words line) = line := by
  obtain ⟨-, source, -, rfl⟩ := mem_readerLines.mp h
  rw [words_readerWords]

/-- Cleaning finds nothing to do in a cleaned text. -/
theorem cleanText?_of_cleanText? (h : cleanText? text = some cleaned) :
    cleanText? cleaned = some cleaned := by
  have hplain := not_startsMarker_of_cleanText? h
  have hsame : ∀ line ∈ readerLines text, " ".intercalate (readerWords line) = line := by
    intro line hline
    have hall : plainWords line = words line := by
      refine List.filter_eq_self.mpr fun word hword => decide_eq_true (hplain word ?_)
      rw [words_eq_flatMap_lines, lines_of_cleanText? h]
      exact List.mem_flatMap.mpr ⟨line, hline, hword⟩
    rw [readerWords_eq, hall, intercalate_words hline]
  have hlines : readerLines cleaned = readerLines text := by
    rw [readerLines, lines_of_cleanText? h, List.map_congr_left hsame, List.map_id']
    exact List.filter_eq_self.mpr fun line hline => by simpa using (mem_readerLines.mp hline).1
  obtain ⟨hne, hcleaned⟩ := cleanText?_eq_some.mp h
  exact cleanText?_eq_some.mpr ⟨hlines ▸ hne, hlines ▸ hcleaned⟩

/-- Cleaning a documentation keeps its words apart from those that look like a marker. They
stay in order and line by line, with single spaces in a line and without the lines that are left
empty, and nothing is left exactly if every word looks like a marker. A second cleaning changes
nothing. A field has the markers that are words of its documentation, and none once that has
been cleaned. -/
theorem cleanDocumentation_keeps_words (text : String) :
    words text = (lines text).flatMap words ∧
    (cleanDocumentation (some text) = none ↔ ∀ word ∈ words text, StartsMarker word) ∧
    (∀ cleaned, cleanDocumentation (some text) = some cleaned →
      words cleaned = plainWords text ∧
      (lines cleaned).map words = ((lines text).map plainWords).filter (· ≠ []) ∧
      (∀ line ∈ lines cleaned, line = " ".intercalate (words line)) ∧
      cleaned = "\n".intercalate (lines cleaned)) ∧
    cleanDocumentation (cleanDocumentation (some text)) = cleanDocumentation (some text) ∧
    (∀ f : Field, f.documentation = cleanDocumentation (some text) → f.markers = []) ∧
    ∀ f : Field, f.documentation = some text →
      f.markers.map (fun marker => "B$" ++ marker.name) =
        (words text).filter (· ∈ markerWords) := by
  refine ⟨words_eq_flatMap_lines text, ?_, fun cleaned h => ?_, ?_, fun f hf => ?_, fun f hf => ?_⟩
  · rw [← plainWords_eq_nil_iff, ← readerLines_eq_nil_iff]
    exact cleanText?_eq_none
  · have hlines := lines_of_cleanText? h
    refine ⟨words_of_cleanText? h, ?_, fun line hline => ?_, ?_⟩
    · rw [hlines, map_words_readerLines]
    · exact (intercalate_words (hlines ▸ hline)).symm
    · rw [hlines]
      exact (cleanText?_eq_some.mp h).2.symm
  · cases h : cleanDocumentation (some text) with
    | none => rfl
    | some cleaned => exact cleanText?_of_cleanText? h
  · rw [Field.markers, hf]
    cases h : cleanDocumentation (some text) with
    | none => rfl
    | some cleaned => exact markersOf_eq_nil (not_startsMarker_of_cleanText? h)
  · rw [Field.markers, hf, map_name_markersOf]

/-- A marker twice, a word that only looks like one, a marker at the end of another word, and
line ends and blanks of several kinds. -/
def markedDocumentation : String :=
  "B$ReadOnly  Set\tby\u2028a job.\r\nB$ReadOnly B$Later\n\u00a0\r\n noB$CreatedAt \r"

theorem cleanDocumentation_keeps_words_markedDocumentation :
    cleanDocumentation (some markedDocumentation) = some "Set by a job.\nnoB$CreatedAt" ∧
      words "Set by a job.\nnoB$CreatedAt" = plainWords markedDocumentation ∧
      (lines "Set by a job.\nnoB$CreatedAt").map words =
        [["Set", "by", "a", "job."], ["noB$CreatedAt"]] ∧
      ∃ f : Field, f.documentation = some markedDocumentation ∧
        f.markers.map (fun marker => "B$" ++ marker.name) = ["B$ReadOnly", "B$ReadOnly"] := by
  obtain ⟨-, -, hkeeps, -, -, hmarkers⟩ := cleanDocumentation_keeps_words markedDocumentation
  have hclean : cleanDocumentation (some markedDocumentation) =
      some "Set by a job.\nnoB$CreatedAt" := by decide +kernel
  have hparts : ((lines markedDocumentation).map plainWords).filter (· ≠ []) =
      [["Set", "by", "a", "job."], ["noB$CreatedAt"]] := by decide +kernel
  have hfound : (words markedDocumentation).filter (· ∈ markerWords) =
      ["B$ReadOnly", "B$ReadOnly"] := by decide +kernel
  obtain ⟨hwords, hlines, -⟩ := hkeeps _ hclean
  exact ⟨hclean, hwords, hparts ▸ hlines,
    (Field.plain "state" (.scalar .string)).withDocumentation markedDocumentation, rfl,
    hfound ▸ hmarkers _ rfl⟩

end TypeScript

end Scaffold
