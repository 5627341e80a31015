import Mathlib.Algebra.GroupWithZero.Nat
import Mathlib.Data.List.Infix
import Scaffold.Proofs.Spelling
import Scaffold.TypeScript.Documentation

/-!
# Block comments and where they end

A documentation is free text, and what is written of it stands between two signs. For the
reader of the generated file the comment is over at the first place where the second sign
stands, whoever put it there.

The lines of a comment are under control. Cleaning leaves no blank but the space in a line,
so nothing that any reader takes for the end of a line is left, and the comment has one line
for each line that is kept, every one of them behind a star and a space.

The sign that ends a comment is not. Nothing between the two signs takes part in a sign of
its own making: the stars in front of the lines stand before a space, and words are set apart
by spaces. What a word brings with it stays, though, and so a comment ends where it should
exactly if no word that is kept holds the sign.
-/

namespace Scaffold.Text

theorem not_blank_of_mem_words {s word : String} (h : word ∈ words s) {c : Char}
    (hc : c ∈ word.toList) : isBlank c = false := by
  obtain ⟨chars, hchars, rfl⟩ := List.mem_map.mp h
  rw [String.toList_ofList] at hc
  exact Naming.of_mem_splitOnP (List.mem_filter.mp hchars).1 hc

/-- A text without a line end in it. -/
def IsLine (s : String) : Prop :=
  '\n' ∉ s.toList ∧ '\r' ∉ s.toList

theorem IsLine.append {s t : String} (hs : IsLine s) (ht : IsLine t) : IsLine (s ++ t) := by
  simp only [IsLine, String.toList_append, List.mem_append, not_or]
  exact ⟨⟨hs.1, ht.1⟩, hs.2, ht.2⟩

theorem IsLine.intercalate {between : String} {parts : List String} (hbetween : IsLine between)
    (hparts : ∀ part ∈ parts, IsLine part) : IsLine (between.intercalate parts) :=
  ⟨not_mem_intercalate hbetween.1 fun part hpart => (hparts part hpart).1,
    not_mem_intercalate hbetween.2 fun part hpart => (hparts part hpart).2⟩

theorem linesOfStretches_concat {stretches : List (List Char)} (last : List Char)
    (h : ∀ chars ∈ stretches, '\r' ∉ chars) :
    linesOfStretches (stretches ++ [last]) = stretches ++ if last.isEmpty then [] else [last] := by
  induction stretches with
  | nil => rfl
  | cons first rest ih =>
      have hfirst : dropReturn first = first := by
        rw [dropReturn, if_neg]
        intro hlast
        exact h first (by simp) (List.mem_of_getLast? hlast)
      have hrest := ih fun chars hchars => h chars (by simp [hchars])
      cases hcases : rest ++ [last] with
      | nil => simp at hcases
      | cons second more =>
          rw [List.cons_append, hcases, linesOfStretches, hfirst, ← hcases, hrest]
          · rfl
          · simp

/-- Lines with line feeds between them are read back. Behind the last line feed there may be
nothing, and then there is no line. -/
theorem lines_intercalate {ls : List String} {last : String} (hls : ∀ l ∈ ls, IsLine l)
    (hlast : IsLine last) :
    lines ("\n".intercalate (ls ++ [last])) = ls ++ if last = "" then [] else [last] := by
  have hsplit : ("\n".intercalate (ls ++ [last])).toList.splitOn '\n' =
      ls.map String.toList ++ [last.toList] := by
    rw [String.toList_intercalate, List.map_append, List.map_singleton]
    refine List.splitOn_intercalate '\n' ?_ (by simp)
    intro chars hchars
    rcases List.mem_append.mp hchars with hchars | hchars
    · obtain ⟨l, hl, rfl⟩ := List.mem_map.mp hchars
      exact (hls l hl).1
    · rw [List.mem_singleton.mp hchars]
      exact hlast.1
  rw [lines, hsplit, linesOfStretches_concat]
  · by_cases hempty : last = ""
    · simp [hempty, Function.comp_def]
    · simp [hempty, Function.comp_def]
  · intro chars hchars
    obtain ⟨l, hl, rfl⟩ := List.mem_map.mp hchars
    exact (hls l hl).2

theorem join_newline (ls : List String) :
    String.join (ls.map fun l => l ++ "\n") = "\n".intercalate (ls ++ [""]) := by
  induction ls with
  | nil => rfl
  | cons l ls ih =>
      rw [List.map_cons, String.join_cons, ih, List.cons_append,
        String.intercalate_cons_of_ne_nil (by simp)]

/-- Lines with a line feed behind each of them are read back. -/
theorem lines_join_newline {ls : List String} (h : ∀ l ∈ ls, IsLine l) :
    lines (String.join (ls.map fun l => l ++ "\n")) = ls := by
  have hread := lines_intercalate h (⟨by decide, by decide⟩ : IsLine "")
  rwa [if_pos rfl, List.append_nil, ← join_newline] at hread

end Scaffold.Text

namespace Scaffold.TypeScript

open Text (IsLine isBlank lines lines_intercalate lines_join_newline not_blank_of_mem_words
  not_mem_intercalate)

/-- The sign that ends a comment. -/
def commentEnd : String := "*/"

/-- The number of places of a text at which the sign stands that ends a comment. -/
def commentEnds (s : String) : Nat :=
  s.toList.tails.countP fun rest => commentEnd.toList.isPrefixOf rest

theorem beginsEnd_append {c : Char} {cs more : List Char}
    (h : (c :: cs).getLast? = some '*' → more.head? ≠ some '/') :
    commentEnd.toList.isPrefixOf (c :: cs ++ more) = commentEnd.toList.isPrefixOf (c :: cs) := by
  have hsign : commentEnd.toList = ['*', '/'] := by decide
  rw [hsign]
  cases cs with
  | cons next rest => rfl
  | nil =>
      cases more with
      | nil => rfl
      | cons next rest =>
          by_cases hstar : c = '*'
          · have hslash : next ≠ '/' := by simpa using h (by simp [hstar])
            simp [List.isPrefixOf, hslash.symm]
          · simp [List.isPrefixOf, Ne.symm hstar]

/-- Two texts put together have the ends of both, unless the sign comes about in between. -/
theorem commentEnds_append {s t : String}
    (h : s.toList.getLast? = some '*' → t.toList.head? ≠ some '/') :
    commentEnds (s ++ t) = commentEnds s + commentEnds t := by
  rw [commentEnds, commentEnds, commentEnds, String.toList_append]
  generalize s.toList = chars at h
  induction chars with
  | nil => simp [commentEnd]
  | cons c cs ih =>
      have hrest : cs.getLast? = some '*' → t.toList.head? ≠ some '/' := by
        intro hlast
        exact h (by rw [List.getLast?_cons, hlast]; rfl)
      rw [List.cons_append, List.tails_cons, List.tails_cons, List.countP_cons, List.countP_cons,
        ih hrest, ← List.cons_append, beginsEnd_append h]
      omega

theorem commentEnds_append_of_last {s t : String} (h : s.toList.getLast? ≠ some '*') :
    commentEnds (s ++ t) = commentEnds s + commentEnds t :=
  commentEnds_append fun hlast => absurd hlast h

/-- A text in which no star stands ends no comment. -/
theorem commentEnds_eq_zero {s : String} (h : '*' ∉ s.toList) : commentEnds s = 0 := by
  refine List.countP_eq_zero.mpr fun rest hrest hbegins => h ?_
  have hbegin : commentEnd.toList <+: rest := List.isPrefixOf_iff_prefix.mp hbegins
  have hstar : '*' ∈ commentEnd.toList := by decide
  exact ((List.mem_tails _ _).mp hrest).subset (hbegin.subset hstar)

theorem commentEnds_words (parts : List String) :
    commentEnds (" ".intercalate parts) = (parts.map commentEnds).sum := by
  induction parts with
  | nil => decide
  | cons first rest ih =>
      by_cases hrest : rest = []
      · simp [hrest]
      · have hspace : commentEnds " " = 0 := by decide
        rw [String.intercalate_cons_of_ne_nil hrest, String.append_assoc,
          commentEnds_append (by simp), commentEnds_append_of_last (by decide), hspace, ih,
          List.map_cons, List.sum_cons, Nat.zero_add]

theorem commentEnds_join {pieces : List String} :
    commentEnds (String.join (pieces.map fun piece => piece ++ "\n")) =
      (pieces.map commentEnds).sum := by
  induction pieces with
  | nil => decide
  | cons first rest ih =>
      have hend : commentEnds "\n" = 0 := by decide
      rw [List.map_cons, String.join_cons, commentEnds_append_of_last (by simp),
        commentEnds_append (by simp), hend, ih, List.map_cons, List.sum_cons, Nat.add_zero]

theorem mem_readerLines {text line : String} :
    line ∈ readerLines text ↔
      line ≠ "" ∧ ∃ source ∈ lines text, " ".intercalate (readerWords source) = line := by
  rw [readerLines, List.mem_filter, List.mem_map]
  constructor
  · rintro ⟨⟨source, hsource, rfl⟩, hne⟩
    exact ⟨by simpa using hne, source, hsource, rfl⟩
  · rintro ⟨hne, source, hsource, rfl⟩
    exact ⟨⟨source, hsource, rfl⟩, by simpa using hne⟩

/-- The only blank in a line that is kept is the space between two words. -/
theorem eq_space_of_mem_readerLines {text line : String} (h : line ∈ readerLines text) {c : Char}
    (hc : c ∈ line.toList) (hblank : isBlank c = true) : c = ' ' := by
  obtain ⟨-, source, -, rfl⟩ := mem_readerLines.mp h
  by_contra hspace
  refine not_mem_intercalate (by simpa using hspace) (fun word hword hmem => ?_) hc
  have hvisible := not_blank_of_mem_words (List.mem_filter.mp hword).1 hmem
  rw [hblank] at hvisible
  cases hvisible

theorem isLine_of_mem_readerLines {text line : String} (h : line ∈ readerLines text) :
    IsLine line := by
  constructor
  · intro hmem
    exact absurd (eq_space_of_mem_readerLines h hmem (by decide)) (by decide)
  · intro hmem
    exact absurd (eq_space_of_mem_readerLines h hmem (by decide)) (by decide)

theorem cleanText?_eq_some {text cleaned : String} :
    cleanText? text = some cleaned ↔
      readerLines text ≠ [] ∧ "\n".intercalate (readerLines text) = cleaned := by
  rw [cleanText?]
  split
  · next hnone => simp [hnone]
  · next hsome => simpa using fun _ => hsome

/-- The lines of a cleaned documentation are the lines that are kept. -/
theorem lines_of_cleanText? {text cleaned : String} (h : cleanText? text = some cleaned) :
    lines cleaned = readerLines text := by
  obtain ⟨hne, rfl⟩ := cleanText?_eq_some.mp h
  have hparts := List.dropLast_append_getLast hne
  have hlast : (readerLines text).getLast hne ∈ readerLines text := List.getLast_mem hne
  have hothers : ∀ l ∈ (readerLines text).dropLast, IsLine l := by
    intro l hl
    exact isLine_of_mem_readerLines (List.mem_of_mem_dropLast hl)
  have hlines := lines_intercalate hothers (isLine_of_mem_readerLines hlast)
  rwa [if_neg (mem_readerLines.mp hlast).1, hparts] at hlines

/-- The lines of a block comment around some lines. -/
def commentLines (indent : String) (kept : List String) : List String :=
  (indent ++ "/**") :: kept.map (fun line => indent ++ " * " ++ line) ++ [indent ++ " */"]

theorem blockComment_eq (text indent : String) :
    blockComment text indent =
      String.join ((commentLines indent (lines text)).map fun line => line ++ "\n") := by
  rw [blockComment, commentLines, ← String.toList_inj]
  simp [Function.comp_def]

/-- An indentation. -/
def IsIndent (indent : String) : Prop :=
  ∀ c ∈ indent.toList, c = ' '

theorem IsIndent.not_mem {indent : String} (h : IsIndent indent) {c : Char} (hc : c ≠ ' ') :
    c ∉ indent.toList :=
  fun hmem => hc (h c hmem)

theorem lines_blockComment {text indent : String} (hindent : IsIndent indent)
    (htext : ∀ line ∈ lines text, IsLine line) :
    lines (blockComment text indent) = commentLines indent (lines text) := by
  have hblank : IsLine indent := ⟨hindent.not_mem (by decide), hindent.not_mem (by decide)⟩
  have hall : ∀ line ∈ commentLines indent (lines text), IsLine line := by
    intro line hline
    rcases List.mem_append.mp hline with hline | hline
    · rcases List.mem_cons.mp hline with rfl | hline
      · exact hblank.append ⟨by decide, by decide⟩
      · obtain ⟨kept, hkept, rfl⟩ := List.mem_map.mp hline
        exact (hblank.append ⟨by decide, by decide⟩).append (htext kept hkept)
    · rw [List.mem_singleton.mp hline]
      exact hblank.append ⟨by decide, by decide⟩
  rw [blockComment_eq, lines_join_newline hall]

theorem commentEnds_readerLines (text : String) :
    ((readerLines text).map commentEnds).sum =
      (((lines text).flatMap readerWords).map commentEnds).sum := by
  rw [readerLines]
  induction lines text with
  | nil => rfl
  | cons source sources ih =>
      have hsource := commentEnds_words (readerWords source)
      rw [List.flatMap_cons, List.map_append, List.sum_append, ← ih, ← hsource, List.map_cons,
        List.filter_cons]
      split
      · rw [List.map_cons, List.sum_cons]
      · next hempty =>
          have hnone : " ".intercalate (readerWords source) = "" := by simpa using hempty
          have hzero : commentEnds "" = 0 := by decide
          rw [hnone, hzero, Nat.zero_add]

/-- A comment has the ends that its lines bring with them and one of its own. -/
theorem commentEnds_blockComment {text indent : String} (hindent : IsIndent indent) :
    commentEnds (blockComment text indent) = ((lines text).map commentEnds).sum + 1 := by
  have hlast : indent.toList.getLast? ≠ some '*' := by
    intro hstar
    exact hindent.not_mem (by decide) (List.mem_of_getLast? hstar)
  have hnone : commentEnds indent = 0 := commentEnds_eq_zero (hindent.not_mem (by decide))
  have hopening : commentEnds (indent ++ "/**") = 0 := by
    rw [commentEnds_append_of_last hlast, hnone]
    decide
  have hclosing : commentEnds (indent ++ " */") = 1 := by
    rw [commentEnds_append_of_last hlast, hnone]
    decide
  have hline : ∀ line, commentEnds (indent ++ " * " ++ line) = commentEnds line := by
    intro line
    have hstar : commentEnds " * " = 0 := by decide
    rw [commentEnds_append_of_last (by simp), commentEnds_append_of_last hlast, hnone, hstar,
      Nat.zero_add]
  rw [blockComment_eq, commentEnds_join, commentLines]
  simp [hopening, hclosing, hline, Function.comp_def]

/-- A documentation is written as one comment with a line of its own for every line that is
kept, and the comment is over at its end and nowhere before exactly if no word that is kept
holds the sign that ends a comment. -/
theorem blockComment_closes {documentation cleaned indent : String}
    (hclean : cleanDocumentation (some documentation) = some cleaned)
    (hindent : IsIndent indent) :
    lines (blockComment cleaned indent) = commentLines indent (readerLines documentation) ∧
    (∀ line ∈ readerLines documentation,
      line ≠ "" ∧ ∀ c ∈ line.toList, isBlank c = true → c = ' ') ∧
    (∃ before, blockComment cleaned indent = before ++ commentEnd ++ "\n") ∧
    (commentEnds (blockComment cleaned indent) = 1 ↔
      ∀ word ∈ (lines documentation).flatMap readerWords, commentEnds word = 0) := by
  have hlines := lines_of_cleanText? hclean
  refine ⟨?_, ?_, ?_, ?_⟩
  · rw [← hlines]
    refine lines_blockComment hindent fun line hline => ?_
    rw [hlines] at hline
    exact isLine_of_mem_readerLines hline
  · intro line hline
    exact ⟨(mem_readerLines.mp hline).1, fun c hc => eq_space_of_mem_readerLines hline hc⟩
  · refine ⟨indent ++ "/**\n" ++
      String.join ((lines cleaned).map fun line => indent ++ " * " ++ line ++ "\n") ++
      indent ++ " ", ?_⟩
    rw [blockComment, commentEnd, ← String.toList_inj]
    simp
  · rw [commentEnds_blockComment hindent, hlines, commentEnds_readerLines, Nat.add_eq_right,
      List.sum_eq_zero_iff_forall_eq_nat, List.forall_mem_map]

/-- Stars and slashes next to each other but for blanks of several kinds. -/
def starredDocumentation : String :=
  "Rates * / day\u2028B$ReadOnly or\r\n\r\n*\n/ none"

theorem blockComment_closes_starredDocumentation :
    cleanDocumentation (some starredDocumentation) = some "Rates * / day or\n*\n/ none" ∧
      IsIndent indentUnit ∧
      lines (blockComment "Rates * / day or\n*\n/ none" indentUnit) =
        commentLines indentUnit ["Rates * / day or", "*", "/ none"] ∧
      (∃ before, blockComment "Rates * / day or\n*\n/ none" indentUnit =
        before ++ commentEnd ++ "\n") ∧
      commentEnds (blockComment "Rates * / day or\n*\n/ none" indentUnit) = 1 := by
  have hclean : cleanDocumentation (some starredDocumentation) =
      some "Rates * / day or\n*\n/ none" := by decide +kernel
  have hindent : IsIndent indentUnit := by simp [IsIndent, indentUnit]
  obtain ⟨hlines, -, hend, honce⟩ := blockComment_closes hclean hindent
  have hkept : readerLines starredDocumentation = ["Rates * / day or", "*", "/ none"] := by
    decide +kernel
  rw [hkept] at hlines
  exact ⟨hclean, hindent, hlines, hend, honce.mpr (by decide +kernel)⟩

/-- A documentation may itself hold the sign that ends a comment. -/
theorem blockComment_ends_twice :
    cleanDocumentation (some "see */ below") = some "see */ below" ∧
      commentEnds (blockComment "see */ below" indentUnit) = 2 := by
  decide +kernel

end Scaffold.TypeScript
