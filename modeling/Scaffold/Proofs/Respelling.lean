import Scaffold.Proofs.Casing

/-!
# Spelling a spelling

A spelling is itself an identifier and can be spelled again. In a kebab form the hyphens keep the
words apart, so its words are those of the identifier and nothing is lost.

In the Pascal form and the camel form words are kept apart by capitals alone, and not every
capital is read as the beginning of a word. Inside a run of letters and digits it is one exactly
if a small letter is the nearest letter before it, or a capital is and a small letter follows.
`a_b` is spelled `AB`, where the second capital has no small letter on either side, and spelled
again that is `Ab`. So a text is spelled again as it stands exactly if each of its capitals,
the first character aside, is read as a beginning.

The argument avoids words. `respell` gives the spelling of a run character by character and
knows of the characters before only the case of their last letter, as the splitter does; the
induction that links the two is on the splitter. Spelling makes capitals small and never the
other way round, and a capital that survives still does so when capitals before it have become
small. That is why spelling a second time settles.
-/

namespace Scaffold.Naming

theorem Case.after_of_isUpper (case : Case) {c : Char} (h : c.isUpper = true) :
    case.after c = .upper := by
  simp [Case.after, h, isLower_of_isUpper h]

theorem Case.after_of_isLower (case : Case) {c : Char} (h : c.isLower = true) :
    case.after c = .lower := by
  simp [Case.after, h]

theorem Case.after_of_caseless (case : Case) {c : Char} (hlower : c.isLower = false)
    (hupper : c.isUpper = false) : case.after c = case := by
  simp [Case.after, hlower, hupper]

theorem splitWords_of_alphanum {run : List Char} (h : ∀ c ∈ run, c.isAlphanum = true) :
    splitWords run = splitRun .none [] run := by
  have hrun : run.splitOnP (fun c => !c.isAlphanum) = [run] :=
    List.splitOnP_eq_singleton fun c hc => by simp [h c hc]
  rw [splitWords, hrun, List.flatMap_singleton]

/-- A run without capitals is one word. -/
theorem splitRun_of_small {case : Case} {held rest : List Char}
    (hrest : ∀ c ∈ rest, c.isUpper = false) (hne : held.reverse ++ rest ≠ []) :
    splitRun case held rest = [held.reverse ++ rest] := by
  fun_induction splitRun case held rest with
  | case1 case held hempty => simp_all
  | case2 case held hfull => simp
  | case3 case held c => simp
  | case4 case held c next rest hcut ih => simp [hrest next (by simp)] at hcut
  | case5 case held c next rest hstay hcut ih => simp [hrest c (by simp)] at hcut
  | case6 case held c next rest hstay hkeep ih =>
      rw [ih (fun d hd => hrest d (List.mem_cons_of_mem c hd)) (by simp)]
      simp

theorem splitWords_of_small {word : List Char}
    (halnum : ∀ c ∈ word, c.isAlphanum = true) (hsmall : ∀ c ∈ word, c.isUpper = false)
    (hne : word ≠ []) : splitWords word = [word] := by
  rw [splitWords_of_alphanum halnum]
  exact splitRun_of_small hsmall hne

theorem splitWords_append_separator {c : Char} (hc : c.isAlphanum = false)
    (first rest : List Char) :
    splitWords (first ++ c :: rest) = splitWords first ++ splitWords rest := by
  have hseparates : (!c.isAlphanum) = true := by rw [hc]; rfl
  rw [splitWords, List.splitOnP_append_cons first rest hseparates, List.flatMap_append,
    splitWords, splitWords]

/-- Words in small letters are read back from what hyphens make of them. -/
theorem splitWords_intercalate {words : List (List Char)}
    (halnum : ∀ word ∈ words, ∀ c ∈ word, c.isAlphanum = true)
    (hsmall : ∀ word ∈ words, ∀ c ∈ word, c.isUpper = false) (hne : ∀ word ∈ words, word ≠ []) :
    splitWords (['-'].intercalate words) = words := by
  induction words with
  | nil => rfl
  | cons word words ih =>
      have hword : splitWords word = [word] :=
        splitWords_of_small (halnum word List.mem_cons_self) (hsmall word List.mem_cons_self)
          (hne word List.mem_cons_self)
      have hrest := ih (fun w hw => halnum w (List.mem_cons_of_mem _ hw))
        (fun w hw => hsmall w (List.mem_cons_of_mem _ hw))
        (fun w hw => hne w (List.mem_cons_of_mem _ hw))
      cases words with
      | nil => simpa using hword
      | cons next words =>
          rw [List.intercalate_cons_cons, List.append_assoc, List.singleton_append,
            splitWords_append_separator (by decide), hword, hrest]
          rfl

/-- The kebab form has the words of the identifier, in small letters. -/
theorem splitWords_kebabChars (identifier : List Char) :
    splitWords (kebabChars identifier) = (splitWords identifier).map lowerWord := by
  refine splitWords_intercalate ?_ ?_ ?_ <;> intro lowered hlowered <;>
    obtain ⟨word, hword, rfl⟩ := List.mem_map.mp hlowered
  · exact isAlphanum_of_mem_lowerWord fun _ => isAlphanum_of_mem_word hword
  · intro c hc
    obtain ⟨d, -, rfl⟩ := List.mem_map.mp hc
    exact isUpper_toLower d
  · simpa [lowerWord] using ne_nil_of_mem_splitWords hword

theorem capitalWord_lowerWord (word : List Char) :
    capitalWord (lowerWord word) = capitalWord word := by
  rw [capitalWord_eq, capitalWord_eq, lowerWord_lowerWord]

theorem pascalChars_kebabChars (identifier : List Char) :
    pascalChars (kebabChars identifier) = pascalChars identifier := by
  rw [pascalChars, splitWords_kebabChars, pascalChars, List.flatMap_map]
  simp only [capitalWord_lowerWord]

theorem camelChars_kebabChars (identifier : List Char) :
    camelChars (kebabChars identifier) = camelChars identifier :=
  camelChars_eq_iff.mpr (pascalChars_kebabChars identifier)

theorem kebabChars_kebabChars (identifier : List Char) :
    kebabChars (kebabChars identifier) = kebabChars identifier := by
  rw [kebabChars, splitWords_kebabChars, List.map_map, kebabChars]
  exact congrArg _ (List.map_congr_left fun word _ => lowerWord_lowerWord word)

/-! ## A run, character by character

The splitter looks back: it cuts a word off when it has seen the letters behind. `respell`
looks ahead instead, one character, and of what came before it needs the case of the last
letter alone. The induction that links the two is along the splitter. -/

/-- Whether a capital is read as the beginning of a word, by the case of the nearest letter
before it and the characters behind it. -/
def beginsWord (case : Case) (after : List Char) : Bool :=
  case = .lower || case = .upper && after.head?.any Char.isLower

/-- A run with small letters for all capitals but those that begin a word, where `case` is the
case of the nearest letter before the run. -/
def respell (case : Case) : List Char → List Char
  | [] => []
  | c :: rest =>
    (if c.isUpper && beginsWord case rest then c else c.toLower) :: respell (case.after c) rest

theorem respell_small {case : Case} {c : Char} {rest : List Char}
    (h : c.isUpper = true → beginsWord case rest = false) :
    respell case (c :: rest) = c.toLower :: respell (case.after c) rest := by
  rw [respell, if_neg]
  intro hkept
  rw [Bool.and_eq_true] at hkept
  rw [h hkept.1] at hkept
  cases hkept.2

theorem respell_capital {case : Case} {c : Char} {rest : List Char} (hc : c.isUpper = true)
    (h : beginsWord case rest = true) : respell case (c :: rest) = c :: respell .upper rest := by
  rw [respell, if_pos (by rw [hc, h]; rfl), case.after_of_isUpper hc]

theorem respell_isLower (case : Case) {c : Char} (rest : List Char) (hc : c.isLower = true) :
    respell case (c :: rest) = c :: respell .lower rest := by
  have hsmall : c.isUpper = true → beginsWord case rest = false := by
    rw [isUpper_of_isLower hc]
    exact nofun
  rw [respell_small hsmall, toLower_of_isLower hc, case.after_of_isLower hc]

theorem respell_begin (c : Char) (rest : List Char) :
    respell .none (c :: rest) = c.toLower :: respell (Case.none.after c) rest :=
  respell_small fun _ => rfl

theorem modifyHead_append {f : Char → Char} {first : List Char} (h : first ≠ [])
    (rest : List Char) : (first ++ rest).modifyHead f = first.modifyHead f ++ rest := by
  obtain ⟨c, more, rfl⟩ := List.exists_cons_of_ne_nil h
  rfl

/-- A run with a letter of this case before it does not begin with a word of its own: behind a
small letter it does not begin with a capital. -/
def Uncut (case : Case) (run : List Char) : Prop :=
  case = .lower → ∀ c, run.head? = some c → c.isUpper = false

theorem uncut_none (run : List Char) : Uncut .none run := by
  intro h
  cases h

theorem Uncut.ne_lower {case : Case} {c : Char} {rest : List Char} (h : Uncut case (c :: rest))
    (hc : c.isUpper = true) : case ≠ .lower := by
  intro hlower
  rw [h hlower c rfl] at hc
  cases hc

/-- The words of a run with capitals in front are the run respelled. A capital behind a small
letter would have been cut off already, so it cannot be what comes next. -/
theorem flatMap_capitalWord_splitRun {case : Case} {held rest : List Char}
    (huncut : Uncut case rest) :
    (splitRun case held rest).flatMap capitalWord =
      (lowerWord held.reverse ++ respell case rest).modifyHead Char.toUpper := by
  fun_induction splitRun case held rest with
  | case1 case held hempty =>
      rw [List.isEmpty_iff.mp hempty]
      rfl
  | case2 case held hfull =>
      rw [List.flatMap_singleton, capitalWord_eq, respell, List.append_nil]
  | case3 case held c =>
      have hc : c.isUpper = true → beginsWord case [] = false := by
        intro hupper
        simp [beginsWord, huncut.ne_lower hupper]
      rw [List.flatMap_singleton, capitalWord_eq, List.reverse_cons, lowerWord_append,
        respell_small hc, respell]
      rfl
  | case4 case held c next rest hcut ih =>
      -- The cut is behind `c`: what is respelled next begins with a capital that stays.
      simp only [Bool.and_eq_true, decide_eq_true_eq] at hcut
      obtain ⟨hafter, hupper⟩ := hcut
      have hc : c.isUpper = true → beginsWord case (next :: rest) = false := by
        intro hc
        rw [case.after_of_isUpper hc] at hafter
        cases hafter
      have hkept : respell .lower (next :: rest) = next :: respell .upper rest :=
        respell_capital hupper rfl
      have hrest : (splitRun .none [] (next :: rest)).flatMap capitalWord =
          respell .lower (next :: rest) := by
        rw [ih (uncut_none _), hkept, List.reverse_nil, lowerWord, List.map_nil, List.nil_append,
          respell_begin, List.modifyHead_cons, toUpper_toLower,
          toUpper_of_isUpper hupper, Case.after_of_isUpper _ hupper]
      have hheld : lowerWord (c :: held).reverse ≠ [] := by simp [lowerWord]
      rw [List.flatMap_cons, hrest, capitalWord_eq, ← modifyHead_append hheld, respell_small hc,
        hafter, List.reverse_cons, lowerWord_append, List.append_assoc]
      rfl
  | case5 case held c next rest hstay hcut ih =>
      -- The cut is in front of `c`, which stays because of the small letter behind it.
      simp only [Bool.and_eq_true, decide_eq_true_eq] at hcut
      obtain ⟨⟨rfl, hupper⟩, hlower⟩ := hcut
      have hkept : respell .upper (c :: next :: rest) = c :: respell .upper (next :: rest) :=
        respell_capital hupper (by simp [beginsWord, hlower])
      have hrest : (splitRun .none [c] (next :: rest)).flatMap capitalWord =
          respell .upper (c :: next :: rest) := by
        rw [ih (uncut_none _), hkept, respell_isLower _ rest hlower, respell_isLower _ rest hlower,
          List.reverse_singleton, lowerWord_cons, List.cons_append, List.modifyHead_cons,
          toUpper_toLower, toUpper_of_isUpper hupper]
        rfl
      rw [List.flatMap_cons, hrest, capitalWord_eq]
      by_cases hheld : lowerWord held.reverse = []
      · rw [hheld, hkept]
        simp [toUpper_of_isUpper hupper]
      · rw [modifyHead_append hheld]
  | case6 case held c next rest hstay hkeep ih =>
      have hc : c.isUpper = true → beginsWord case (next :: rest) = false := by
        intro hupper
        have hcase := huncut.ne_lower hupper
        simp_all [beginsWord]
      have hbehind : Uncut (case.after c) (next :: rest) := by
        intro hafter d hd
        rw [← Option.some.inj hd]
        simpa [hafter] using hstay
      rw [ih hbehind, respell_small hc, List.reverse_cons, lowerWord_append, List.append_assoc]
      rfl

theorem pascalChars_cons {c : Char} {rest : List Char}
    (h : ∀ d ∈ c :: rest, d.isAlphanum = true) :
    pascalChars (c :: rest) = c.toUpper :: respell (Case.none.after c) rest := by
  rw [pascalChars, splitWords_of_alphanum h, flatMap_capitalWord_splitRun (uncut_none _),
    List.reverse_nil, lowerWord, List.map_nil, List.nil_append, respell_begin,
    List.modifyHead_cons, toUpper_toLower]

theorem camelChars_cons {c : Char} {rest : List Char}
    (h : ∀ d ∈ c :: rest, d.isAlphanum = true) :
    camelChars (c :: rest) = c.toLower :: respell (Case.none.after c) rest := by
  rw [camelChars_eq, pascalChars_cons h, List.modifyHead_cons, toLower_toUpper]

/-- The case of the last letter of a text. -/
def caseOf (text : List Char) : Case :=
  text.foldl Case.after .none

/-- Every capital of a text but its first character is read as the beginning of a word. -/
def RecallsWords (text : List Char) : Prop :=
  ∀ before c after, text = before ++ c :: after → before ≠ [] → c.isUpper = true →
    beginsWord (caseOf before) after = true

theorem respell_eq_self_iff {case : Case} {run : List Char} :
    respell case run = run ↔ ∀ before c after, run = before ++ c :: after → c.isUpper = true →
      beginsWord (before.foldl Case.after case) after = true := by
  induction run generalizing case with
  | nil => simp [respell]
  | cons d rest ih =>
      have hfirst : (if d.isUpper && beginsWord case rest then d else d.toLower) = d ↔
          (d.isUpper = true → beginsWord case rest = true) := by
        cases hupper : d.isUpper with
        | true =>
            cases hbegins : beginsWord case rest with
            | true => simp
            | false => simpa using toLower_ne_of_isUpper hupper
        | false => simpa using toLower_of_not_isUpper hupper
      rw [respell, List.cons.injEq, hfirst, ih]
      constructor
      · rintro ⟨hd, hrest⟩ before c after hrun hc
        cases before with
        | nil =>
            obtain ⟨rfl, rfl⟩ := List.cons.inj hrun
            exact hd hc
        | cons b before =>
            obtain ⟨rfl, hbehind⟩ := List.cons.inj hrun
            exact hrest before c after hbehind hc
      · intro h
        exact ⟨h [] d rest rfl, fun before c after hrest hc =>
          h (d :: before) c after (congrArg _ hrest) hc⟩

theorem recallsWords_cons {c : Char} {rest : List Char} :
    RecallsWords (c :: rest) ↔ respell (Case.none.after c) rest = rest := by
  rw [respell_eq_self_iff, RecallsWords]
  constructor
  · intro h before d after hrest hd
    exact h (c :: before) d after (congrArg _ hrest) (List.cons_ne_nil _ _) hd
  · intro h before d after hrun hne hd
    obtain ⟨b, before, rfl⟩ := List.exists_cons_of_ne_nil hne
    obtain ⟨rfl, hbehind⟩ := List.cons.inj hrun
    exact h before d after hbehind hd

instance : DecidablePred RecallsWords
  | [] => .isTrue fun _ _ _ h => by simp at h
  | _ :: _ => decidable_of_iff _ recallsWords_cons.symm

/-- A run that begins as a Pascal form or a camel form does is spelled in that form again, but for
the capitals that begin no word. -/
theorem pascalChars_eq_self_iff {run : List Char} (h : ∀ c ∈ run, c.isAlphanum = true) :
    pascalChars run = run.modifyHead Char.toUpper ↔ RecallsWords run := by
  cases run with
  | nil => exact iff_of_true (by decide) (by decide)
  | cons c rest =>
      rw [pascalChars_cons h, List.modifyHead_cons, List.cons.injEq, and_iff_right rfl,
        recallsWords_cons]

theorem camelChars_eq_self_iff {run : List Char} (h : ∀ c ∈ run, c.isAlphanum = true) :
    camelChars run = run.modifyHead Char.toLower ↔ RecallsWords run := by
  cases run with
  | nil => exact iff_of_true (by decide) (by decide)
  | cons c rest =>
      rw [camelChars_cons h, List.modifyHead_cons, List.cons.injEq, and_iff_right rfl,
        recallsWords_cons]

/-! ## Spelling a second time

Respelled once, a run has fewer capitals, and each of those left is judged anew by the
letters before it. Behind a letter that became small a capital is kept at least as readily.
`Case.Keeps` orders cases by this, and the induction carries two of them along. -/

/-- A case that capitals are at least as well kept behind as behind another one. -/
structure Case.Keeps (kept case : Case) : Prop where
  lower : case = .lower → kept = .lower
  upper : case = .upper → kept ≠ .none

theorem Case.Keeps.refl (case : Case) : case.Keeps case := by
  refine ⟨id, ?_⟩
  rintro rfl
  exact nofun

theorem Case.Keeps.beginsWord {kept case : Case} (h : kept.Keeps case) {after after' : List Char}
    (hafter : after.head?.any Char.isLower = true → after'.head?.any Char.isLower = true)
    (hbegins : Naming.beginsWord case after = true) : Naming.beginsWord kept after' = true := by
  simp only [Naming.beginsWord, Bool.or_eq_true, Bool.and_eq_true, decide_eq_true_eq] at hbegins ⊢
  rcases hbegins with hlower | ⟨hupper, hnext⟩
  · exact .inl (h.lower hlower)
  · cases kept with
    | none => exact absurd rfl (h.upper hupper)
    | lower => exact .inl rfl
    | upper => exact .inr ⟨rfl, hafter hnext⟩

theorem Case.Keeps.after {kept case : Case} (h : kept.Keeps case) {c d : Char}
    (hd : d = c ∨ d = c.toLower) : (kept.after d).Keeps (case.after c) := by
  cases hlower : c.isLower with
  | true =>
      have hsame : d.isLower = true := by
        rcases hd with rfl | rfl
        · exact hlower
        · rw [toLower_of_isLower hlower, hlower]
      rw [case.after_of_isLower hlower, kept.after_of_isLower hsame]
      exact ⟨fun _ => rfl, nofun⟩
  | false =>
      cases hupper : c.isUpper with
      | true =>
          rw [case.after_of_isUpper hupper]
          refine ⟨nofun, fun _ => ?_⟩
          rcases hd with rfl | rfl
          · simp [kept.after_of_isUpper hupper]
          · simp [kept.after_of_isLower (isLower_toLower_of_isUpper hupper)]
      | false =>
          have hcaseless := toLower_of_not_isUpper hupper
          have hsame : d = c := hd.elim id fun heq => heq.trans hcaseless
          rw [hsame, case.after_of_caseless hlower hupper, kept.after_of_caseless hlower hupper]
          exact h

theorem head?_respell_any_isLower {case : Case} {rest : List Char}
    (h : rest.head?.any Char.isLower = true) :
    (respell case rest).head?.any Char.isLower = true := by
  cases rest with
  | nil => cases h
  | cons c rest =>
      have hc : c.isLower = true := h
      rw [respell_isLower case rest hc]
      exact hc

/-- A run respelled is not changed by respelling it behind a case that keeps capitals as well. -/
theorem respell_respell {kept case : Case} (h : kept.Keeps case) (run : List Char) :
    respell kept (respell case run) = respell case run := by
  induction run generalizing kept case with
  | nil => rfl
  | cons c rest ih =>
      by_cases hbegins : c.isUpper = true ∧ beginsWord case rest = true
      · obtain ⟨hupper, hbegins⟩ := hbegins
        have hagain : beginsWord kept (respell .upper rest) = true :=
          h.beginsWord head?_respell_any_isLower hbegins
        rw [respell_capital hupper hbegins, respell_capital hupper hagain, ih (.refl .upper)]
      · have hsmall : c.isUpper = true → beginsWord case rest = false := by
          intro hupper
          simpa [hupper] using hbegins
        have hagain : c.toLower.isUpper = true →
            beginsWord kept (respell (case.after c) rest) = false := by
          rw [isUpper_toLower]
          intro hupper
          cases hupper
        rw [respell_small hsmall, respell_small hagain, toLower_toLower,
          ih (h.after (.inr rfl))]

theorem recallsWords_respell (c : Char) (rest : List Char) :
    RecallsWords (c :: respell (Case.none.after c) rest) :=
  recallsWords_cons.mpr (respell_respell (.refl _) rest)

theorem recallsWords_pascalChars {run : List Char} (h : ∀ c ∈ run, c.isAlphanum = true)
    (hhead : run.modifyHead Char.toUpper = run) : RecallsWords (pascalChars run) := by
  cases run with
  | nil => decide
  | cons c rest =>
      rw [List.modifyHead_cons] at hhead
      rw [pascalChars_cons h, (List.cons.inj hhead).1]
      exact recallsWords_respell c rest

theorem recallsWords_camelChars {run : List Char} (h : ∀ c ∈ run, c.isAlphanum = true)
    (hhead : run.modifyHead Char.toLower = run) : RecallsWords (camelChars run) := by
  cases run with
  | nil => decide
  | cons c rest =>
      rw [List.modifyHead_cons] at hhead
      rw [camelChars_cons h, (List.cons.inj hhead).1]
      exact recallsWords_respell c rest

/-- A small letter in front keeps at least as many capitals as the capital does. -/
theorem RecallsWords.modifyHead_toLower {run : List Char} (h : RecallsWords run) :
    RecallsWords (run.modifyHead Char.toLower) := by
  cases run with
  | nil => exact h
  | cons c rest =>
      rw [recallsWords_cons] at h
      rw [List.modifyHead_cons, recallsWords_cons]
      have hkeeps : (Case.none.after c.toLower).Keeps (Case.none.after c) :=
        (Case.Keeps.refl .none).after (.inr rfl)
      have hagain := respell_respell hkeeps rest
      rwa [h] at hagain

theorem modifyHead_modifyHead {f g k : Char → Char} (h : ∀ c, g (f c) = k c) (cs : List Char) :
    (cs.modifyHead f).modifyHead g = cs.modifyHead k := by
  cases cs with
  | nil => rfl
  | cons c rest => rw [List.modifyHead_cons, List.modifyHead_cons, List.modifyHead_cons, h]

theorem pascalChars_modifyHead (identifier : List Char) :
    (pascalChars identifier).modifyHead Char.toUpper = pascalChars identifier := by
  rw [pascalChars_eq]
  exact modifyHead_modifyHead toUpper_toUpper _

theorem camelChars_modifyHead (identifier : List Char) :
    (camelChars identifier).modifyHead Char.toLower = camelChars identifier := by
  rw [camelChars_eq]
  exact modifyHead_modifyHead toLower_toLower _

theorem isSpellable_of_alphanum {run : List Char} (h : ∀ c ∈ run, c.isAlphanum = true)
    (hne : run ≠ []) : isSpellable run = true := by
  obtain ⟨c, hc⟩ := List.exists_mem_of_ne_nil _ hne
  exact isSpellable_iff.mpr ⟨fun d hd => toNat_lt_of_isAlphanum (h d hd), c, hc, h c hc⟩

/-- A name's forms can be spelled. Each of the two spellings keeps both forms exactly if every
capital of the form it was made from is read as the beginning of a word; a Pascal form of this
kind comes with a camel form of this kind. What was spelled twice is of this kind. -/
theorem ofIdentifier_respelled {identifier : String} {n : Name}
    (h : Name.ofIdentifier identifier = .ok n) :
    ∃ p c, Name.ofIdentifier n.pascal = .ok p ∧ Name.ofIdentifier n.camel = .ok c ∧
      (p.pascal = n.pascal ↔ RecallsWords n.pascal.toList) ∧
      (p.camel = n.camel ↔ RecallsWords n.pascal.toList) ∧
      (c.pascal = n.pascal ↔ RecallsWords n.camel.toList) ∧
      (c.camel = n.camel ↔ RecallsWords n.camel.toList) ∧
      (RecallsWords n.pascal.toList → RecallsWords n.camel.toList) ∧
      RecallsWords p.pascal.toList ∧ RecallsWords c.camel.toList := by
  have hcoherent := Name.coherent_of_ofIdentifier h
  have hpascal := isSpellable_of_alphanum hcoherent.pascal_alphanum
    (by simpa using hcoherent.pascal_ne_empty)
  have hcamel := isSpellable_of_alphanum hcoherent.camel_alphanum
    (by simpa using hcoherent.camel_ne_empty)
  refine ⟨_, _, ofIdentifier_eq_ok.mpr ⟨hpascal, rfl⟩, ofIdentifier_eq_ok.mpr ⟨hcamel, rfl⟩, ?_⟩
  obtain ⟨-, rfl⟩ := ofIdentifier_eq_ok.mp h
  simp only [String.toList_ofList, String.ofList_inj]
  obtain ⟨chars, hchars⟩ : ∃ chars, identifier.toList = chars := ⟨_, rfl⟩
  rw [hchars]
  have hrun : ∀ c ∈ pascalChars chars, c.isAlphanum = true := isAlphanum_of_mem_pascalChars
  have hrun' : ∀ c ∈ camelChars chars, c.isAlphanum = true := isAlphanum_of_mem_camelChars
  have hpp := pascalChars_eq_self_iff hrun
  have hpc := camelChars_eq_self_iff hrun
  have hcp := pascalChars_eq_self_iff hrun'
  have hcc := camelChars_eq_self_iff hrun'
  rw [pascalChars_modifyHead] at hpp
  rw [← camelChars_eq] at hpc
  rw [← pascalChars_eq] at hcp
  rw [camelChars_modifyHead] at hcc
  refine ⟨hpp, hpc, hcp, hcc, fun hrecalls => ?_,
    recallsWords_pascalChars hrun (pascalChars_modifyHead chars),
    recallsWords_camelChars hrun' (camelChars_modifyHead chars)⟩
  rw [camelChars_eq]
  exact hrecalls.modifyHead_toLower

theorem ofIdentifier_respelled_acronym :
    ∃ n p c, Name.ofIdentifier "user_2FA_HTTPServer" = .ok n ∧ n.pascal = "User2faHttpServer" ∧
      Name.ofIdentifier n.pascal = .ok p ∧ p.pascal = n.pascal ∧ p.camel = n.camel ∧
      Name.ofIdentifier n.camel = .ok c ∧ c.pascal = n.pascal ∧ c.camel = n.camel := by
  have hspell : isSpellable "user_2FA_HTTPServer".toList = true := by decide
  have hn := ofIdentifier_eq_ok.mpr ⟨hspell, rfl⟩
  obtain ⟨p, c, hp, hc, hpp, hpc, hcp, hcc, hboth, -⟩ := ofIdentifier_respelled hn
  have hrecalls : RecallsWords (pascalChars "user_2FA_HTTPServer".toList) := by decide
  rw [String.toList_ofList] at hpp hpc hcp hcc hboth
  exact ⟨_, p, c, hn, by decide, hp, hpp.mpr hrecalls, hpc.mpr hrecalls, hc,
    hcp.mpr (hboth hrecalls), hcc.mpr (hboth hrecalls)⟩

/-- Words of one letter run together, and a capital among capitals is read as no beginning. -/
theorem ofIdentifier_respelled_initials :
    ∃ n p, Name.ofIdentifier "a_b" = .ok n ∧ Name.ofIdentifier n.pascal = .ok p ∧
      n.pascal = "AB" ∧ p.pascal = "Ab" ∧ n.camel = "aB" ∧ p.camel = "ab" := by
  refine ⟨_, _, ofIdentifier_eq_ok.mpr ⟨by decide, rfl⟩, ofIdentifier_eq_ok.mpr ⟨by decide, rfl⟩,
    ?_⟩
  decide

theorem mem_bareChars {identifier : List Char} {c : Char} (h : c ∈ bareChars identifier) :
    c.isAlphanum = true := by
  obtain ⟨d, hd, rfl⟩ := List.mem_map.mp h
  exact isAlphanum_toLower (List.mem_filter.mp hd).2

theorem isSpellable_kebabChars {identifier : List Char} (h : isSpellable identifier = true) :
    isSpellable (kebabChars identifier) = true := by
  obtain ⟨-, c, hc, halnum⟩ := isSpellable_iff.mp h
  have hbare : ∀ d ∈ kebabChars identifier, d ≠ '-' → d ∈ bareChars identifier := by
    intro d hd hne
    rw [← filter_kebabChars]
    exact List.mem_filter.mpr ⟨hd, by simpa using hne⟩
  have hmem : c.toLower ∈ bareChars identifier :=
    List.mem_map_of_mem (List.mem_filter.mpr ⟨hc, halnum⟩)
  refine isSpellable_iff.mpr ⟨fun d hd => ?_, c.toLower, ?_, mem_bareChars hmem⟩
  · by_cases hhyphen : d = '-'
    · rw [hhyphen]
      decide
    · exact toNat_lt_of_isAlphanum (mem_bareChars (hbare d hd hhyphen))
  · rw [← filter_kebabChars] at hmem
    exact (List.mem_filter.mp hmem).1

/-- The kebab form of an identifier has all its spellings. -/
theorem ofIdentifier_kebab_eq {identifier : String} {n : Name}
    (h : Name.ofIdentifier identifier = .ok n) :
    Name.ofIdentifier n.kebab = .ok { n with identifier := n.kebab } := by
  obtain ⟨hspell, rfl⟩ := ofIdentifier_eq_ok.mp h
  refine ofIdentifier_eq_ok.mpr ⟨?_, ?_⟩
  · rw [String.toList_ofList]
    exact isSpellable_kebabChars hspell
  · simp only [String.toList_ofList, camelChars_kebabChars, pascalChars_kebabChars,
      kebabChars_kebabChars]

/-- The kebab form determines all other spellings. -/
theorem eq_of_kebab_eq {first second : String} {n m : Name}
    (hn : Name.ofIdentifier first = .ok n) (hm : Name.ofIdentifier second = .ok m)
    (h : m.kebab = n.kebab) : m = { n with identifier := second } := by
  have hkebab := ofIdentifier_kebab_eq hm
  rw [h, ofIdentifier_kebab_eq hn, Except.ok.injEq] at hkebab
  have hsecond := identifier_of_ofIdentifier hm
  cases m
  cases n
  simp_all

end Scaffold.Naming
