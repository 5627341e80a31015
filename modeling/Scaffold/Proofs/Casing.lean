import Scaffold.Proofs.Spelling

/-!
# Spellings that say the same

The spellings of an identifier differ in case and in hyphens and in nothing else. All of them
are made from the same words, and a word in small letters says what it says with a capital in
front, so what is left of any spelling without case and hyphens is the letters and digits of the
identifier.

The camel form and the Pascal form are closer still. They differ in their first character, and
either is made from the other by a change of that character alone. A camel form that two
identifiers share is therefore no clash of its own: it comes with a shared Pascal form.
-/

namespace Scaffold.Naming

theorem lowerWord_cons (c : Char) (rest : List Char) :
    lowerWord (c :: rest) = c.toLower :: lowerWord rest :=
  rfl

theorem lowerWord_append (first second : List Char) :
    lowerWord (first ++ second) = lowerWord first ++ lowerWord second :=
  List.map_append

theorem lowerWord_lowerWord (word : List Char) : lowerWord (lowerWord word) = lowerWord word := by
  induction word with
  | nil => rfl
  | cons c rest ih => rw [lowerWord_cons, lowerWord_cons, toLower_toLower, ih]

theorem capitalWord_eq (word : List Char) :
    capitalWord word = (lowerWord word).modifyHead Char.toUpper := by
  cases word with
  | nil => rfl
  | cons c rest =>
      rw [capitalWord, lowerWord_cons, List.modifyHead_cons, toUpper_toLower]

theorem lowerWord_capitalWord (word : List Char) :
    lowerWord (capitalWord word) = lowerWord word := by
  cases word with
  | nil => rfl
  | cons c rest =>
      rw [capitalWord, lowerWord_cons, lowerWord_cons, toLower_toUpper,
        lowerWord_lowerWord]

theorem lowerWord_flatMap_capitalWord (words : List (List Char)) :
    lowerWord (words.flatMap capitalWord) = lowerWord words.flatten := by
  induction words with
  | nil => rfl
  | cons word words ih =>
      rw [List.flatMap_cons, List.flatten_cons, lowerWord_append, lowerWord_append, ih,
        lowerWord_capitalWord]

/-- Of words with hyphens between them, what is left without the hyphens are the words. -/
theorem filter_intercalate_hyphen {words : List (List Char)} (h : ∀ word ∈ words, '-' ∉ word) :
    (['-'].intercalate words).filter (· ≠ '-') = words.flatten := by
  have hkeep : ∀ word ∈ words, word.filter (· ≠ '-') = word := by
    intro word hword
    refine List.filter_eq_self.mpr fun c hc => ?_
    have hne : c ≠ '-' := fun heq => h word hword (heq ▸ hc)
    simpa using hne
  induction words with
  | nil => rfl
  | cons word words ih =>
      have hfirst := hkeep word List.mem_cons_self
      cases words with
      | nil => simpa using hfirst
      | cons next words =>
          have hrest := ih (fun word hword => h word (List.mem_cons_of_mem _ hword))
            (fun word hword => hkeep word (List.mem_cons_of_mem _ hword))
          have hhyphen : ['-'].filter (· ≠ '-') = [] := by decide
          rw [List.intercalate_cons_cons, List.filter_append, List.filter_append, hfirst, hhyphen,
            hrest, List.append_nil]
          rfl

/-- The letters and digits of an identifier, in small letters. -/
def bareChars (identifier : List Char) : List Char :=
  lowerWord (identifier.filter Char.isAlphanum)

theorem lowerWord_pascalChars (identifier : List Char) :
    lowerWord (pascalChars identifier) = bareChars identifier := by
  rw [pascalChars, lowerWord_flatMap_capitalWord, flatten_splitWords, bareChars]

theorem pascalChars_eq (identifier : List Char) :
    pascalChars identifier = (camelChars identifier).modifyHead Char.toUpper := by
  rw [pascalChars, camelChars]
  split
  · next hwords =>
      rw [hwords]
      rfl
  · next first rest hwords =>
      have hfirst : first ≠ [] := ne_nil_of_mem_splitWords (hwords ▸ List.mem_cons_self)
      obtain ⟨c, word, rfl⟩ := List.exists_cons_of_ne_nil hfirst
      rw [hwords, List.flatMap_cons, capitalWord_eq]
      rfl

theorem camelChars_eq (identifier : List Char) :
    camelChars identifier = (pascalChars identifier).modifyHead Char.toLower := by
  rw [pascalChars_eq, camelChars]
  split
  · rfl
  · next first rest hwords =>
      have hfirst : first ≠ [] := ne_nil_of_mem_splitWords (hwords ▸ List.mem_cons_self)
      obtain ⟨c, word, rfl⟩ := List.exists_cons_of_ne_nil hfirst
      rw [lowerWord_cons, List.cons_append, List.modifyHead_cons, List.modifyHead_cons,
        toLower_toUpper, toLower_toLower]

theorem lowerWord_camelChars (identifier : List Char) :
    lowerWord (camelChars identifier) = bareChars identifier := by
  rw [← lowerWord_pascalChars, camelChars_eq]
  cases pascalChars identifier with
  | nil => rfl
  | cons c rest =>
      rw [List.modifyHead_cons, lowerWord_cons, lowerWord_cons, toLower_toLower]

theorem camelChars_eq_iff {first second : List Char} :
    camelChars first = camelChars second ↔ pascalChars first = pascalChars second := by
  constructor
  · intro h
    rw [pascalChars_eq, pascalChars_eq, h]
  · intro h
    rw [camelChars_eq, camelChars_eq, h]

theorem hyphen_not_mem_lowerWord {identifier word : List Char}
    (h : word ∈ splitWords identifier) : '-' ∉ lowerWord word := by
  intro hmem
  have halnum := isAlphanum_of_mem_lowerWord (fun _ => isAlphanum_of_mem_word h) '-' hmem
  revert halnum
  decide

theorem filter_kebabChars (identifier : List Char) :
    (kebabChars identifier).filter (· ≠ '-') = bareChars identifier := by
  have hwords : ∀ word ∈ (splitWords identifier).map lowerWord, '-' ∉ word := by
    intro word hword
    obtain ⟨w, hw, rfl⟩ := List.mem_map.mp hword
    exact hyphen_not_mem_lowerWord hw
  rw [kebabChars, filter_intercalate_hyphen hwords, bareChars, ← flatten_splitWords]
  exact List.map_flatten.symm

/-- One or more words of small letters and digits, with hyphens between them. -/
def IsHyphenated (s : String) : Prop :=
  ∃ words : List String, words ≠ [] ∧ s = "-".intercalate words ∧
    ∀ word ∈ words, word ≠ "" ∧ ∀ c ∈ word.toList, c.isLower = true ∨ c.isDigit = true

theorem isHyphenated_kebabChars {identifier : List Char}
    (h : identifier.any Char.isAlphanum = true) :
    IsHyphenated (String.ofList (kebabChars identifier)) := by
  refine ⟨((splitWords identifier).map lowerWord).map String.ofList, ?_, ?_, ?_⟩
  · simpa using splitWords_ne_nil h
  · rw [← String.toList_inj, String.toList_intercalate, List.map_map, String.toList_ofList,
      kebabChars]
    simp [Function.comp_def]
  · intro text htext
    obtain ⟨lowered, hlowered, rfl⟩ := List.mem_map.mp htext
    obtain ⟨word, hword, rfl⟩ := List.mem_map.mp hlowered
    refine ⟨?_, ?_⟩
    · simpa [lowerWord] using ne_nil_of_mem_splitWords hword
    · intro c hc
      rw [String.toList_ofList] at hc
      obtain ⟨d, hd, rfl⟩ := List.mem_map.mp hc
      exact isLower_or_isDigit_toLower (isAlphanum_of_mem_word hword hd)

/-- What holds between an identifier and its spellings. -/
structure Name.Coherent (n : Name) : Prop where
  camel_ne_empty : n.camel ≠ ""
  pascal_ne_empty : n.pascal ≠ ""
  camel_alphanum : ∀ c ∈ n.camel.toList, c.isAlphanum = true
  pascal_alphanum : ∀ c ∈ n.pascal.toList, c.isAlphanum = true
  kebab_hyphenated : IsHyphenated n.kebab
  lower_camel : n.camel.toList.map Char.toLower = bareChars n.identifier.toList
  lower_pascal : n.pascal.toList.map Char.toLower = bareChars n.identifier.toList
  bare_kebab : n.kebab.toList.filter (· ≠ '-') = bareChars n.identifier.toList
  camel_of_pascal : n.camel.toList = n.pascal.toList.modifyHead Char.toLower
  pascal_of_camel : n.pascal.toList = n.camel.toList.modifyHead Char.toUpper

theorem Name.coherent_of_ofIdentifier {identifier : String} {n : Name}
    (h : Name.ofIdentifier identifier = .ok n) : n.Coherent := by
  have hspelled := wellSpelled_of_ofIdentifier h
  obtain ⟨first, rest, hpascal, -⟩ := hspelled.pascal_head
  obtain ⟨hspell, rfl⟩ := ofIdentifier_eq_ok.mp h
  have hany : identifier.toList.any Char.isAlphanum = true :=
    List.any_eq_true.mpr (isSpellable_iff.mp hspell).2
  exact {
    camel_ne_empty := by simpa using hspelled.camel_ne_nil
    pascal_ne_empty := by
      rw [ne_eq, ← String.toList_eq_nil_iff, hpascal]
      exact List.cons_ne_nil _ _
    camel_alphanum := hspelled.camel_alphanum
    pascal_alphanum := hspelled.pascal_alphanum
    kebab_hyphenated := isHyphenated_kebabChars hany
    lower_camel := by
      rw [String.toList_ofList]
      exact lowerWord_camelChars _
    lower_pascal := by
      rw [String.toList_ofList]
      exact lowerWord_pascalChars _
    bare_kebab := by
      rw [String.toList_ofList]
      exact filter_kebabChars _
    camel_of_pascal := by
      rw [String.toList_ofList, String.toList_ofList]
      exact camelChars_eq _
    pascal_of_camel := by
      rw [String.toList_ofList, String.toList_ofList]
      exact pascalChars_eq _ }

theorem Name.camel_eq_iff {first second : String} {n m : Name}
    (hn : Name.ofIdentifier first = .ok n) (hm : Name.ofIdentifier second = .ok m) :
    n.camel = m.camel ↔ n.pascal = m.pascal := by
  obtain ⟨-, rfl⟩ := ofIdentifier_eq_ok.mp hn
  obtain ⟨-, rfl⟩ := ofIdentifier_eq_ok.mp hm
  rw [String.ofList_inj, String.ofList_inj]
  exact camelChars_eq_iff

/-- The identifiers that can be spelled are the ASCII ones with a letter or a digit. Without case
and hyphens each of their spellings is what the identifier is without case and separators; camel
and Pascal forms differ in the case of their first character, and so identify the same names. -/
theorem ofIdentifier_coherent (identifier : String) :
    ((∃ n, Name.ofIdentifier identifier = .ok n) ↔
      (∀ c ∈ identifier.toList, c.toNat < 128) ∧
        ∃ c ∈ identifier.toList, c.isAlphanum = true) ∧
    (∀ e, Name.ofIdentifier identifier = .error e → e = .invalidName identifier) ∧
    ∀ n, Name.ofIdentifier identifier = .ok n →
      n.identifier = identifier ∧ n.Coherent ∧
        ∀ other m, Name.ofIdentifier other = .ok m → (n.camel = m.camel ↔ n.pascal = m.pascal) := by
  refine ⟨?_, ?_, ?_⟩
  · rw [← isSpellable_iff]
    constructor
    · rintro ⟨n, hn⟩
      exact (ofIdentifier_eq_ok.mp hn).1
    · intro hspell
      exact ⟨_, ofIdentifier_eq_ok.mpr ⟨hspell, rfl⟩⟩
  · intro e he
    rw [Name.ofIdentifier] at he
    dsimp only at he
    split at he
    · cases he
    · exact (Except.error.inj he).symm
  · intro n hn
    exact ⟨identifier_of_ofIdentifier hn, Name.coherent_of_ofIdentifier hn,
      fun other m hm => Name.camel_eq_iff hn hm⟩

theorem ofIdentifier_coherent_acronym :
    ∃ n m, Name.ofIdentifier "HTTPServer2_go" = .ok n ∧
      Name.ofIdentifier ".http-Server2 Go" = .ok m ∧ n.Coherent ∧ n.camel = m.camel ∧
      n.pascal = "HttpServer2Go" ∧ n.kebab = "http-server2-go" := by
  obtain ⟨haccepts, -, hspellings⟩ := ofIdentifier_coherent "HTTPServer2_go"
  obtain ⟨n, hn⟩ := haccepts.mpr (isSpellable_iff.mp (by decide))
  obtain ⟨m, hm⟩ := (ofIdentifier_coherent ".http-Server2 Go").1.mpr
    (isSpellable_iff.mp (by decide))
  obtain ⟨-, hcoherent, hidentifies⟩ := hspellings n hn
  have hpascal : n.pascal = "HttpServer2Go" := by
    rw [(ofIdentifier_eq_ok.mp hn).2]
    decide
  have hsame : n.pascal = m.pascal := by
    rw [hpascal, (ofIdentifier_eq_ok.mp hm).2]
    decide
  refine ⟨n, m, hn, hm, hcoherent, (hidentifies _ m hm).mpr hsame, hpascal, ?_⟩
  rw [(ofIdentifier_eq_ok.mp hn).2]
  decide

end Scaffold.Naming
