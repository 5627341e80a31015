import Scaffold.Naming.Name

/-!
# What a spelling is made of

Splitting an identifier into words loses its separators and nothing else: the
words run together are the letters and digits of the identifier, in order. No
word is empty. Capitals and small letters only change the case of a character,
so every spelling is made of ASCII letters and digits, whatever stood between
them, and none is empty once the identifier held a letter or a digit.

The one fact about case that later proofs need is about the first character of a
Pascal form: it went through the change to a capital, so it is no small letter.
That is what keeps Pascal forms apart from fixed words such as `index`.

Generated names add a fixed word to a spelling, so two of them are told apart by
their last characters alone, whatever the spellings are.
-/

namespace Scaffold.Text

/-- The last characters of a text, the last one first. -/
def ending (length : Nat) (s : String) : List Char :=
  s.toList.reverse.take length

theorem ending_append {length : Nat} {s t : String} (h : length ≤ t.toList.length) :
    ending length (s ++ t) = ending length t := by
  rw [ending, ending, String.toList_append, List.reverse_append]
  exact List.take_append_of_le_length (by simpa using h)

theorem ne_of_ending_ne (length : Nat) {s t : String}
    (h : ending length s ≠ ending length t) : s ≠ t := by
  rintro rfl
  exact h rfl

theorem append_ne_append (length : Nat) {s t u v : String} (hu : length ≤ u.toList.length)
    (hv : length ≤ v.toList.length) (h : ending length u ≠ ending length v) :
    s ++ u ≠ t ++ v := by
  refine ne_of_ending_ne length ?_
  rwa [ending_append hu, ending_append hv]

theorem not_mem_intercalate {x : Char} {between : String} {parts : List String}
    (hbetween : x ∉ between.toList) (hparts : ∀ part ∈ parts, x ∉ part.toList) :
    x ∉ (between.intercalate parts).toList := by
  induction parts with
  | nil => simp
  | cons first rest ih =>
      have hfirst := hparts first (by simp)
      by_cases hrest : rest = []
      · subst hrest
        simpa using hfirst
      · rw [String.intercalate_cons_of_ne_nil hrest, String.toList_append, String.toList_append,
          List.mem_append, List.mem_append]
        rintro ((h | h) | h)
        · exact hfirst h
        · exact hbetween h
        · exact ih (fun part hpart => hparts part (by simp [hpart])) h

end Scaffold.Text

namespace Scaffold.Naming

/-! ## Characters

Letters and digits are ASCII, and so is every character that has a case, so a fact about them
is checked value by value. -/

theorem forall_ascii {P : Char → Prop} (h : ∀ n, n < 128 → P (Char.ofNat n))
    {c : Char} (hc : c.toNat < 128) : P c := by
  rw [← Char.ofNat_toNat c]
  exact h c.toNat hc

theorem isAlphanum_eq (c : Char) : c.isAlphanum = (c.isUpper || c.isLower || c.isDigit) :=
  rfl

theorem toNat_lt_of_isAlphanum {c : Char} (h : c.isAlphanum = true) : c.toNat < 128 := by
  have hle : c.val ≤ 'z'.val := by
    have hranges : (decide ('A'.val ≤ c.val ∧ c.val ≤ 'Z'.val) ||
        (decide ('a'.val ≤ c.val) && decide (c.val ≤ 'z'.val)) ||
        (decide ('0'.val ≤ c.val) && decide (c.val ≤ '9'.val))) = true := h
    simp only [Bool.or_eq_true, Bool.and_eq_true, decide_eq_true_eq] at hranges
    rcases hranges with (hupper | hlower) | hdigit
    · exact UInt32.le_trans hupper.2 (by decide)
    · exact hlower.2
    · exact UInt32.le_trans hdigit.2 (by decide)
  exact Nat.lt_of_le_of_lt hle (by decide)

/-- Only ASCII characters have a case, and only those change with it. -/
theorem forall_casing {P : Char → Prop} (hascii : ∀ n, n < 128 → P (Char.ofNat n))
    (hother : ∀ c : Char, c.isUpper = false → c.toLower = c → c.toUpper = c → P c) (c : Char) :
    P c := by
  by_cases hc : c.toNat < 128
  · exact forall_ascii hascii hc
  · have hsmall : ¬ c.val ≤ 'z'.val := fun hle => hc (Nat.lt_of_le_of_lt hle (by decide))
    have hcapital : ¬ c.val ≤ 'Z'.val := fun hle => hsmall (UInt32.le_trans hle (by decide))
    refine hother c ?_ ?_ ?_
    · exact decide_eq_false fun h => hcapital h.2
    · exact dif_neg fun h => hcapital h.2
    · exact dif_neg fun h => hsmall h.2

/-- Of two changes of case the last one decides. -/
theorem casing_twice (c : Char) :
    (c.toLower.toLower = c.toLower ∧ c.toLower.toUpper = c.toUpper) ∧
      c.toUpper.toLower = c.toLower ∧ c.toUpper.toUpper = c.toUpper :=
  forall_casing (P := fun c => (c.toLower.toLower = c.toLower ∧ c.toLower.toUpper = c.toUpper) ∧
      c.toUpper.toLower = c.toLower ∧ c.toUpper.toUpper = c.toUpper) (by decide +kernel)
    (fun c _ hlower hupper => by simp only [hlower, hupper, and_self]) c

/-- Capitals become small letters, and nothing else is changed into one. -/
theorem casing_cases (c : Char) :
    c.toLower.isUpper = false ∧ (c.isUpper = false → c.toLower = c) ∧
      (c.isUpper = true → c.isLower = false ∧ c.toUpper = c ∧ c.toLower.isLower = true) :=
  forall_casing (P := fun c => c.toLower.isUpper = false ∧ (c.isUpper = false → c.toLower = c) ∧
      (c.isUpper = true → c.isLower = false ∧ c.toUpper = c ∧ c.toLower.isLower = true))
    (by decide +kernel) (fun c hnone hlower _ => by simp [hnone, hlower]) c

theorem toLower_toLower (c : Char) : c.toLower.toLower = c.toLower :=
  (casing_twice c).1.1

theorem toUpper_toLower (c : Char) : c.toLower.toUpper = c.toUpper :=
  (casing_twice c).1.2

theorem toLower_toUpper (c : Char) : c.toUpper.toLower = c.toLower :=
  (casing_twice c).2.1

theorem toUpper_toUpper (c : Char) : c.toUpper.toUpper = c.toUpper :=
  (casing_twice c).2.2

theorem isUpper_toLower (c : Char) : c.toLower.isUpper = false :=
  (casing_cases c).1

theorem toLower_of_not_isUpper {c : Char} (h : c.isUpper = false) : c.toLower = c :=
  (casing_cases c).2.1 h

theorem isUpper_cases {c : Char} (h : c.isUpper = true) :
    c.isLower = false ∧ c.toUpper = c ∧ c.toLower.isLower = true :=
  (casing_cases c).2.2 h

theorem isLower_of_isUpper {c : Char} (h : c.isUpper = true) : c.isLower = false :=
  (isUpper_cases h).1

theorem isUpper_of_isLower {c : Char} (h : c.isLower = true) : c.isUpper = false :=
  Bool.eq_false_iff.mpr fun hupper => by
    rw [isLower_of_isUpper hupper] at h
    cases h

theorem toUpper_of_isUpper {c : Char} (h : c.isUpper = true) : c.toUpper = c :=
  (isUpper_cases h).2.1

theorem toLower_of_isLower {c : Char} (h : c.isLower = true) : c.toLower = c :=
  toLower_of_not_isUpper (isUpper_of_isLower h)

theorem isLower_toLower_of_isUpper {c : Char} (h : c.isUpper = true) :
    c.toLower.isLower = true :=
  (isUpper_cases h).2.2

theorem toLower_ne_of_isUpper {c : Char} (h : c.isUpper = true) : c.toLower ≠ c := by
  intro heq
  have hupper := isUpper_toLower c
  rw [heq, h] at hupper
  cases hupper

/-- Letters and digits stay such, and no small letter is left by a change to capitals. -/
theorem isAlphanum_cases {c : Char} (h : c.isAlphanum = true) :
    (c.toUpper.isAlphanum = true ∧ c.toUpper.isLower = false) ∧ c.toLower.isAlphanum = true ∧
      (c.toLower.isLower = true ∨ c.toLower.isDigit = true) :=
  forall_ascii (P := fun c => c.isAlphanum = true →
      (c.toUpper.isAlphanum = true ∧ c.toUpper.isLower = false) ∧ c.toLower.isAlphanum = true ∧
        (c.toLower.isLower = true ∨ c.toLower.isDigit = true)) (by decide +kernel)
    (toNat_lt_of_isAlphanum h) h

theorem isAlphanum_toUpper {c : Char} (h : c.isAlphanum = true) : c.toUpper.isAlphanum = true :=
  (isAlphanum_cases h).1.1

theorem isLower_toUpper {c : Char} (h : c.isAlphanum = true) : c.toUpper.isLower = false :=
  (isAlphanum_cases h).1.2

theorem isAlphanum_toLower {c : Char} (h : c.isAlphanum = true) : c.toLower.isAlphanum = true :=
  (isAlphanum_cases h).2.1

theorem isLower_or_isDigit_toLower {c : Char} (h : c.isAlphanum = true) :
    c.toLower.isLower = true ∨ c.toLower.isDigit = true :=
  (isAlphanum_cases h).2.2

/-! ## Words

The run of letters and digits being split is the word begun, in reverse, and what
follows it. A word is cut off in front of its last character only if that is not
its first: the case of the word begun is known only once it holds a letter. -/

theorem flatten_splitRun (case : Case) (held rest : List Char) :
    (splitRun case held rest).flatten = held.reverse ++ rest := by
  fun_induction splitRun case held rest with
  | case1 case held hempty => simp_all
  | case2 case held hfull => simp
  | case3 case held c => simp
  | case4 case held c next rest hcut ih => simp [ih]
  | case5 case held c next rest hstay hcut ih => simp [ih]
  | case6 case held c next rest hstay hkeep ih => simp [ih]

theorem ne_nil_of_mem_splitRun {case : Case} {held rest : List Char}
    (hheld : case = .upper → held ≠ []) :
    ∀ word ∈ splitRun case held rest, word ≠ [] := by
  fun_induction splitRun case held rest with
  | case1 case held hempty => simp
  | case2 case held hfull =>
      intro word hword
      rw [List.mem_singleton.mp hword]
      simpa using hfull
  | case3 case held c =>
      intro word hword
      rw [List.mem_singleton.mp hword]
      simp
  | case4 case held c next rest hcut ih =>
      intro word hword
      rcases List.mem_cons.mp hword with rfl | hword
      · simp
      · exact ih (fun h => by cases h) word hword
  | case5 case held c next rest hstay hcut ih =>
      intro word hword
      rcases List.mem_cons.mp hword with rfl | hword
      · have hupper : case = .upper := by simp_all
        simpa using hheld hupper
      · exact ih (fun h => by cases h) word hword
  | case6 case held c next rest hstay hkeep ih =>
      exact ih (fun _ => by simp)

theorem flatten_splitOnP (p : Char → Bool) (cs : List Char) :
    (cs.splitOnP p).flatten = cs.filter fun c => !p c := by
  induction cs with
  | nil => simp [List.splitOnP_nil]
  | cons c cs ih =>
      rw [List.splitOnP_cons_eq_if_modifyHead]
      cases hp : p c with
      | true => simp [ih, hp]
      | false =>
          obtain ⟨first, rest, hsplit⟩ := List.exists_cons_of_ne_nil (List.splitOnP_ne_nil p cs)
          rw [hsplit] at ih
          simp [hsplit, hp, ← ih]

theorem of_mem_splitOnP {p : Char → Bool} {cs part : List Char} {c : Char}
    (hpart : part ∈ cs.splitOnP p) (hc : c ∈ part) : p c = false := by
  have hmem : c ∈ (cs.splitOnP p).flatten := List.mem_flatten.mpr ⟨part, hpart, hc⟩
  rw [flatten_splitOnP, List.mem_filter] at hmem
  simpa using hmem.2

/-- The words of an identifier, run together, are its letters and digits. -/
theorem flatten_splitWords (identifier : List Char) :
    (splitWords identifier).flatten = identifier.filter Char.isAlphanum := by
  have hruns : ∀ runs : List (List Char),
      (runs.flatMap (splitRun .none [])).flatten = runs.flatten := by
    intro runs
    induction runs with
    | nil => rfl
    | cons run runs ih =>
        rw [List.flatMap_cons, List.flatten_append, ih, flatten_splitRun]
        simp
  rw [splitWords, hruns, flatten_splitOnP]
  simp

theorem ne_nil_of_mem_splitWords {identifier word : List Char}
    (h : word ∈ splitWords identifier) : word ≠ [] := by
  obtain ⟨run, _, hword⟩ := List.mem_flatMap.mp h
  exact ne_nil_of_mem_splitRun (fun hcase => by cases hcase) word hword

theorem isAlphanum_of_mem_word {identifier word : List Char} {c : Char}
    (hword : word ∈ splitWords identifier) (hc : c ∈ word) : c.isAlphanum = true := by
  have hmem : c ∈ (splitWords identifier).flatten := List.mem_flatten.mpr ⟨word, hword, hc⟩
  rw [flatten_splitWords] at hmem
  exact (List.mem_filter.mp hmem).2

theorem splitWords_ne_nil {identifier : List Char}
    (h : identifier.any Char.isAlphanum = true) : splitWords identifier ≠ [] := by
  intro hnil
  obtain ⟨c, hc, halnum⟩ := List.any_eq_true.mp h
  have hmem : c ∈ identifier.filter Char.isAlphanum := List.mem_filter.mpr ⟨hc, halnum⟩
  rw [← flatten_splitWords, hnil] at hmem
  cases hmem

theorem isAlphanum_of_mem_capitalWord {word : List Char}
    (hword : ∀ c ∈ word, c.isAlphanum = true) :
    ∀ c ∈ capitalWord word, c.isAlphanum = true := by
  cases word with
  | nil => simp [capitalWord]
  | cons first rest =>
      intro c hc
      rw [capitalWord, lowerWord] at hc
      rcases List.mem_cons.mp hc with rfl | hc
      · exact isAlphanum_toUpper (hword first (by simp))
      · obtain ⟨d, hd, rfl⟩ := List.mem_map.mp hc
        exact isAlphanum_toLower (hword d (by simp [hd]))

theorem isAlphanum_of_mem_lowerWord {word : List Char}
    (hword : ∀ c ∈ word, c.isAlphanum = true) :
    ∀ c ∈ lowerWord word, c.isAlphanum = true := by
  intro c hc
  obtain ⟨d, hd, rfl⟩ := List.mem_map.mp hc
  exact isAlphanum_toLower (hword d hd)

theorem isAlphanum_of_mem_pascalChars {identifier : List Char} :
    ∀ c ∈ pascalChars identifier, c.isAlphanum = true := by
  intro c hc
  obtain ⟨word, hword, hc⟩ := List.mem_flatMap.mp hc
  exact isAlphanum_of_mem_capitalWord (fun _ => isAlphanum_of_mem_word hword) c hc

theorem isAlphanum_of_mem_camelChars {identifier : List Char} :
    ∀ c ∈ camelChars identifier, c.isAlphanum = true := by
  intro c hc
  rw [camelChars] at hc
  split at hc
  · cases hc
  · next first rest hwords =>
      have hall : ∀ word ∈ first :: rest, ∀ c ∈ word, c.isAlphanum = true :=
        fun word hword _ => isAlphanum_of_mem_word (hwords ▸ hword)
      rcases List.mem_append.mp hc with hc | hc
      · exact isAlphanum_of_mem_lowerWord (hall first (by simp)) c hc
      · obtain ⟨word, hword, hc⟩ := List.mem_flatMap.mp hc
        exact isAlphanum_of_mem_capitalWord (hall word (by simp [hword])) c hc

/-- The words of an identifier with a letter or a digit: the first of them, with its
first character, and the rest. -/
theorem exists_splitWords_eq_cons {identifier : List Char}
    (h : identifier.any Char.isAlphanum = true) :
    ∃ c word words, splitWords identifier = (c :: word) :: words := by
  obtain ⟨first, words, hwords⟩ := List.exists_cons_of_ne_nil (splitWords_ne_nil h)
  have hfirst : first ≠ [] := ne_nil_of_mem_splitWords (by rw [hwords]; simp)
  obtain ⟨c, word, rfl⟩ := List.exists_cons_of_ne_nil hfirst
  exact ⟨c, word, words, hwords⟩

/-- What holds of the spellings of a name: they are made of letters and digits, they
are not empty, and the Pascal form does not begin with a small letter. -/
structure Name.WellSpelled (n : Name) : Prop where
  pascal_alphanum : ∀ c ∈ n.pascal.toList, c.isAlphanum = true
  camel_alphanum : ∀ c ∈ n.camel.toList, c.isAlphanum = true
  camel_ne_nil : n.camel.toList ≠ []
  pascal_head : ∃ c rest, n.pascal.toList = c :: rest ∧ c.isLower = false

theorem ofIdentifier_eq_ok {identifier : String} {n : Name} :
    Name.ofIdentifier identifier = .ok n ↔ isSpellable identifier.toList = true ∧ n = {
      identifier := identifier
      camel := String.ofList (camelChars identifier.toList)
      pascal := String.ofList (pascalChars identifier.toList)
      kebab := String.ofList (kebabChars identifier.toList)
      pluralCamel := String.ofList (pluralChars (camelChars identifier.toList))
      pluralPascal := String.ofList (pluralChars (pascalChars identifier.toList)) } := by
  rw [Name.ofIdentifier]
  dsimp only
  split
  · next hspell => rw [Except.ok.injEq, eq_comm (b := n), and_iff_right hspell]
  · next hspell => simp [hspell]

theorem isSpellable_iff {identifier : List Char} :
    isSpellable identifier = true ↔
      (∀ c ∈ identifier, c.toNat < 128) ∧ ∃ c ∈ identifier, c.isAlphanum = true := by
  rw [isSpellable, Bool.and_eq_true, List.all_eq_true, List.any_eq_true]
  simp only [decide_eq_true_eq]

theorem identifier_of_ofIdentifier {identifier : String} {n : Name}
    (h : Name.ofIdentifier identifier = .ok n) : n.identifier = identifier := by
  obtain ⟨-, rfl⟩ := ofIdentifier_eq_ok.mp h
  rfl

theorem wellSpelled_of_ofIdentifier {identifier : String} {n : Name}
    (h : Name.ofIdentifier identifier = .ok n) : n.WellSpelled := by
  obtain ⟨hspell, rfl⟩ := ofIdentifier_eq_ok.mp h
  have hany : identifier.toList.any Char.isAlphanum = true :=
    List.any_eq_true.mpr (isSpellable_iff.mp hspell).2
  obtain ⟨c, word, words, hwords⟩ := exists_splitWords_eq_cons hany
  have hfirst : c :: word ∈ splitWords identifier.toList := by rw [hwords]; simp
  have hc : c.isAlphanum = true := isAlphanum_of_mem_word hfirst (by simp)
  refine ⟨?_, ?_, ?_, ?_⟩
  · simpa using isAlphanum_of_mem_pascalChars
  · simpa using isAlphanum_of_mem_camelChars
  · simp [camelChars, hwords, lowerWord]
  · refine ⟨c.toUpper, lowerWord word ++ words.flatMap capitalWord, ?_, isLower_toUpper hc⟩
    simp [pascalChars, hwords, capitalWord]

end Scaffold.Naming
