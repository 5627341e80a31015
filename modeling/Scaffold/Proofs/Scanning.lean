import Mathlib.Data.List.TakeWhile
import Scaffold.Json.Document

/-!
# Scanning finds the tokens that were written

The text of a token can be put behind any other and before any other, with one
exception: a bare word ends at the next character that ends words, so something
has to stand between two of them. `Spells` says which texts spell which tokens with
blanks wherever they like, and `Spells.scan` that the scanner goes back from the text
to the tokens.

Three kinds of token make up the proof. A mark is a character of its own. A string
is taken to its closing quote, which no escape produces, and its escapes are resolved
to the characters they were written for. A word is taken as long as no character ends
it, and none of those that numbers are written with does.

A number comes back as whatever its text reads as. Whole numbers of a word read as
themselves. For a double this depends on the double, since reading rounds more than
once.
-/

namespace Scaffold.Json

def isNumeralChar (c : Char) : Bool :=
  c.isDigit || c == '-' || c == '+' || c == '.' || c == 'e' || c == 'E'

theorem isNumeralChar_of_isDigit {c : Char} (h : c.isDigit = true) : isNumeralChar c = true := by
  simp [isNumeralChar, h]

theorem isNumeralChar_of_mem_takeWhile {cs : List Char} :
    ∀ c ∈ cs.takeWhile Char.isDigit, isNumeralChar c = true := by
  intro c hc
  exact isNumeralChar_of_isDigit (List.mem_takeWhile_imp hc)

theorem readWhole_eq_some {cs digits rest : List Char} (h : readWhole cs = some (digits, rest)) :
    cs = digits ++ rest ∧ digits ≠ [] ∧ ∀ c ∈ digits, isNumeralChar c = true := by
  rw [readWhole] at h
  split at h
  · cases h
  · cases h
  · next hnone _ =>
      cases h
      exact ⟨List.takeWhile_append_dropWhile.symm, hnone, isNumeralChar_of_mem_takeWhile⟩

theorem readFraction_eq_some {cs digits rest : List Char}
    (h : readFraction cs = some (digits, rest)) :
    ∃ point, cs = point ++ rest ∧ ∀ c ∈ point, isNumeralChar c = true := by
  unfold readFraction at h
  split at h
  · next cs =>
      dsimp only at h
      split at h
      · cases h
      · cases h
        refine ⟨'.' :: cs.takeWhile Char.isDigit, ?_, fun c hc => ?_⟩
        · rw [List.cons_append, List.takeWhile_append_dropWhile]
        · rcases List.mem_cons.mp hc with rfl | hc
          · decide
          · exact isNumeralChar_of_mem_takeWhile c hc
  · cases h
    exact ⟨[], rfl, nofun⟩

theorem readPower_eq_some {digits : List Char} {n : Nat} (h : readPower digits = some n) :
    ∀ c ∈ digits, isNumeralChar c = true := by
  rw [readPower] at h
  split at h
  · cases h
  · next hall =>
      simp only [Bool.or_eq_true, Bool.not_eq_true', not_or, Bool.not_eq_false] at hall
      intro c hc
      exact isNumeralChar_of_isDigit (List.all_eq_true.mp hall.2 c hc)

theorem readExponent_eq_some {cs : List Char} {e : Option Int} (h : readExponent cs = some e) :
    ∀ c ∈ cs, isNumeralChar c = true := by
  have hpower : ∀ {digits : List Char} {n : Int},
      (readPower digits >>= fun n => pure (n : Int)) = some n →
        ∀ c ∈ digits, isNumeralChar c = true := by
    intro digits n hn
    obtain ⟨power, hpower, -⟩ := Option.bind_eq_some_iff.mp hn
    exact readPower_eq_some hpower
  rw [readExponent.eq_def] at h
  split at h
  · exact nofun
  · next mark rest =>
      split at h
      · next hmark =>
          have hfirst : isNumeralChar mark = true := by
            simp only [Bool.or_eq_true, decide_eq_true_eq] at hmark
            rcases hmark with rfl | rfl
            · decide
            · decide
          refine List.forall_mem_cons.mpr ⟨hfirst, ?_⟩
          split at h
          · obtain ⟨n, hn, -⟩ := Option.map_eq_some_iff.mp h
            exact List.forall_mem_cons.mpr ⟨by decide, hpower hn⟩
          · obtain ⟨n, hn, -⟩ := Option.map_eq_some_iff.mp h
            exact List.forall_mem_cons.mpr ⟨by decide, hpower hn⟩
          · obtain ⟨n, hn, -⟩ := Option.map_eq_some_iff.mp h
            exact hpower hn
      · cases h

theorem readUnsigned?_eq_some {negative : Bool} {cs : List Char} {n : Numeral}
    (h : Numeral.readUnsigned? negative cs = some n) :
    cs ≠ [] ∧ ∀ c ∈ cs, isNumeralChar c = true := by
  simp only [Numeral.readUnsigned?, Option.bind_eq_bind, Option.bind_eq_some_iff] at h
  obtain ⟨⟨whole, rest⟩, hwhole, ⟨fraction, rest'⟩, hfraction, exponent, hexponent, -⟩ := h
  obtain ⟨rfl, hne, hall⟩ := readWhole_eq_some hwhole
  obtain ⟨point, rfl, hpoint⟩ := readFraction_eq_some hfraction
  have hexponent := readExponent_eq_some hexponent
  refine ⟨List.append_ne_nil_of_left_ne_nil hne _, fun c hc => ?_⟩
  simp only [List.mem_append] at hc
  rcases hc with hc | hc | hc
  · exact hall c hc
  · exact hpoint c hc
  · exact hexponent c hc

/-- A run of characters that is a number consists of characters of numbers. -/
theorem Number.read?_eq_some {cs : List Char} {n : Number} (h : Number.read? cs = some n) :
    cs ≠ [] ∧ ∀ c ∈ cs, isNumeralChar c = true := by
  obtain ⟨numeral, hnumeral, -⟩ := Option.bind_eq_some_iff.mp h
  rw [Numeral.read?.eq_def] at hnumeral
  split at hnumeral
  · obtain ⟨-, hall⟩ := readUnsigned?_eq_some hnumeral
    refine ⟨List.cons_ne_nil _ _, fun c hc => ?_⟩
    rcases List.mem_cons.mp hc with rfl | hc
    · decide
    · exact hall c hc
  · exact readUnsigned?_eq_some hnumeral

theorem le_ofDigitChars (ds : List Char) (n : Nat) : n ≤ Nat.ofDigitChars 10 ds n := by
  induction ds generalizing n with
  | nil => simp
  | cons d ds ih =>
      rw [Nat.ofDigitChars_cons]
      have hrest := ih (10 * n + (d.toNat - '0'.toNat))
      omega

theorem absorb_of_lt {ds : List Char} {n : Nat} (h : Nat.ofDigitChars 10 ds n < Nat.pow 2 64) :
    absorb n ds = (Nat.ofDigitChars 10 ds n, []) := by
  induction ds generalizing n with
  | nil => simp [absorb]
  | cons d ds ih =>
      rw [Nat.ofDigitChars_cons] at h ⊢
      have hle := le_ofDigitChars ds (10 * n + (d.toNat - '0'.toNat))
      have hnext : 10 * n + digitValue d < Nat.pow 2 64 := Nat.lt_of_le_of_lt hle h
      rw [absorb, if_pos hnext]
      exact ih h

theorem head?_toDigits_ne_zero {n : Nat} (h : 0 < n) : (Nat.toDigits 10 n).head? ≠ some '0' := by
  induction n using Nat.strongRecOn with
  | ind n ih =>
      by_cases hsmall : n < 10
      · rw [Nat.toDigits_of_lt_base hsmall]
        have hdigits : ∀ k < 10, 0 < k → [Nat.digitChar k].head? ≠ some '0' := by decide
        exact hdigits n hsmall h
      · have hhead := ih (n / 10) (by omega) (by omega)
        rw [Nat.toDigits_of_base_le (by decide) (by omega), List.head?_append]
        cases hfirst : (Nat.toDigits 10 (n / 10)).head? with
        | none => exact absurd (List.head?_eq_none_iff.mp hfirst) Nat.toDigits_ne_nil
        | some first =>
            rw [hfirst] at hhead
            exact hhead

theorem readUnsigned?_toDigits (negative : Bool) (n : Nat) :
    Numeral.readUnsigned? negative (Nat.toDigits 10 n) =
      some ⟨negative, Nat.toDigits 10 n, [], none⟩ := by
  have hdigit : ∀ c ∈ Nat.toDigits 10 n, c.isDigit = true :=
    fun c hc => Nat.isDigit_of_mem_toDigits (by decide) (by decide) hc
  have hwhole : readWhole (Nat.toDigits 10 n) = some (Nat.toDigits 10 n, []) := by
    rw [readWhole, List.takeWhile_eq_self_iff.mpr hdigit, List.dropWhile_eq_nil_iff.mpr hdigit]
    split
    · next hnil => exact absurd hnil Nat.toDigits_ne_nil
    · next hzero =>
        rcases Nat.eq_zero_or_pos n with rfl | hpos
        · cases hzero
        · exact absurd (congrArg List.head? hzero) (head?_toDigits_ne_zero hpos)
    · rfl
  simp [Numeral.readUnsigned?, hwhole, readFraction, readExponent]

/-- A whole number of a word reads as itself. -/
theorem read?_text_whole {n : Int} (hlow : -(Nat.pow 2 63 : Int) ≤ n)
    (hhigh : n < (Nat.pow 2 64 : Int)) :
    Number.read? (Number.whole n).text.toList = some (.whole n) := by
  have habsorb : ∀ {m : Nat}, m < Nat.pow 2 64 → absorb 0 (Nat.toDigits 10 m) = (m, []) := by
    intro m hm
    have hvalue : Nat.ofDigitChars 10 (Nat.toDigits 10 m) 0 = m := Nat.ofDigitChars_ten_toDigits
    rw [absorb_of_lt (by rwa [hvalue]), hvalue]
  rw [Number.text, Int.toString_eq_repr, Int.repr_eq_if]
  split
  · next hpos =>
      obtain ⟨m, rfl⟩ := Int.eq_ofNat_of_zero_le hpos
      rw [Int.toNat_natCast, Nat.toList_repr, Number.read?, Numeral.read?.eq_def]
      split
      · next heq =>
          have hdigit : Char.isDigit '-' = true :=
            Nat.isDigit_of_mem_toDigits (b := 10) (n := m) (by decide) (by decide) (by simp [heq])
          cases hdigit
      · rw [readUnsigned?_toDigits, Option.bind_some, Numeral.value?, habsorb (by omega)]
        rfl
  · next hneg =>
      obtain ⟨m, hm⟩ := Int.eq_ofNat_of_zero_le (show 0 ≤ -n by omega)
      obtain rfl : n = -(m : Int) := by omega
      have hrange : 0 < m ∧ m ≤ Nat.pow 2 63 := by omega
      have hword : m < Nat.pow 2 64 := Nat.lt_of_le_of_lt hrange.2 (by decide)
      rw [Int.neg_neg, Int.toNat_natCast, String.toList_append, Nat.toList_repr]
      show (Numeral.readUnsigned? true (Nat.toDigits 10 m)).bind Numeral.value? = _
      rw [readUnsigned?_toDigits, Option.bind_some, Numeral.value?, habsorb hword]
      simp [hrange]

/-- How a character stands in a string: as itself, or behind a backslash as one other
character or as the digits of its code. -/
inductive Escaped (c : Char) : List Char → Prop
  | plain (hquote : c ≠ '"') (hbackslash : c ≠ '\\') (hcontrol : ¬ c.toNat < 0x20) : Escaped c [c]
  | short {e : Char} (he : shortEscape? e = some c) (hu : e ≠ 'u') : Escaped c ['\\', e]
  | code {a b : Char} (hunit : unit? '0' '0' a b = some c.toNat) (hlow : c.toNat < 0x20)
      (ha : a ≠ '"' ∧ a ≠ '\\') (hb : b ≠ '"' ∧ b ≠ '\\') : Escaped c ['\\', 'u', '0', '0', a, b]

theorem hexDigits_of_control : ∀ n < 0x20,
    unit? '0' '0' (Text.hexDigit (n / 16)) (Text.hexDigit (n % 16)) = some n ∧
      (Text.hexDigit (n / 16) ≠ '"' ∧ Text.hexDigit (n / 16) ≠ '\\') ∧
      Text.hexDigit (n % 16) ≠ '"' ∧ Text.hexDigit (n % 16) ≠ '\\' := by
  decide

theorem escaped_escapeChar (c : Char) : Escaped c (escapeChar c) := by
  unfold escapeChar
  iterate 7
    split
    case isTrue h =>
      subst h
      exact .short (by decide) (by decide)
  split
  case isTrue hcontrol =>
    obtain ⟨hunit, ha, hb⟩ := hexDigits_of_control c.toNat hcontrol
    exact .code hunit hcontrol ha hb
  case isFalse hcontrol => exact .plain ‹¬c = '"'› ‹¬c = '\\'› hcontrol

theorem unescape_escaped {c : Char} {cs : List Char} (h : Escaped c cs) (found rest : List Char) :
    unescape found (cs ++ rest) = unescape (c :: found) rest := by
  cases h with
  | plain hquote hbackslash hcontrol =>
      rw [List.singleton_append, unescape.eq_def]
      split
      · next heq => cases heq
      · next heq => exact absurd (List.cons.inj heq).1 hbackslash
      · next heq => exact absurd (List.cons.inj heq).1 hbackslash
      · next heq =>
          obtain ⟨rfl, rfl⟩ := List.cons.inj heq
          rw [if_neg (by simp [hcontrol, hbackslash])]
  | @short e he hu =>
      rw [List.cons_append, List.cons_append, List.nil_append, unescape.eq_def]
      split
      · next heq => cases heq
      · next heq =>
          simp only [List.cons.injEq, true_and] at heq
          exact absurd heq.1 hu
      · next heq =>
          simp only [List.cons.injEq, true_and] at heq
          obtain ⟨rfl, rfl⟩ := heq
          rw [he]
      · next hno heq =>
          obtain ⟨rfl, rfl⟩ := List.cons.inj heq
          exact (hno e rest rfl rfl).elim
  | code hunit hlow ha hb =>
      simp only [List.cons_append, List.nil_append]
      rw [unescape, hunit]
      dsimp only
      rw [if_neg (by omega), if_neg (by omega), Char.ofNat_toNat]

/-- Escapes are resolved to the characters they were written for. -/
theorem unescape_flatMap_escapeChar (found cs : List Char) :
    unescape found (cs.flatMap escapeChar) = some (found.reverse ++ cs) := by
  induction cs generalizing found with
  | nil => simp [unescape]
  | cons c cs ih =>
      rw [List.flatMap_cons, unescape_escaped (escaped_escapeChar c), ih]
      simp

/-- The number as which the text of a number is read. -/
def Number.readBack (n : Number) : Number :=
  (Number.read? n.text.toList).getD n

def Number.isReadable (n : Number) : Bool :=
  (Number.read? n.text.toList).isSome

namespace Token

/-- Whether a token goes on until another character ends it. -/
def isWord : Token → Bool
  | .null | .bool _ | .number _ => true
  | _ => false

def readBack : Token → Token
  | .number n => .number n.readBack
  | t => t

def isReadable : Token → Bool
  | .number n => n.isReadable
  | _ => true

end Token

/-- A text of some tokens, each spelled as it is written, with blanks around them wherever it
likes. -/
inductive Spells : List Token → List Char → Prop
  | nil : Spells [] []
  | gap {c : Char} {ts : List Token} {cs : List Char} (hgap : isGap c = true)
      (h : Spells ts cs) : Spells ts (c :: cs)
  | token {t : Token} {ts : List Token} {cs : List Char}
      (hends : t.isWord = true → ∀ c ∈ cs.head?, endsWord c = true)
      (h : Spells ts cs) : Spells (t :: ts) (t.text.toList ++ cs)

/-! ## Scanning

A bare word ends only with the character behind it, so the scanner may be one token late.
`Ready` covers both cases, the token ended and the token still held, and says of either that
the next character begins a new one. -/

theorem isNumeralChar_not_endsWord {c : Char} (h : isNumeralChar c = true) :
    endsWord c = false := by
  rw [← Bool.not_eq_true]
  intro hends
  simp only [endsWord, isGap, Bool.or_eq_true, beq_iff_eq] at hends
  rcases hends with (hmark | ((rfl | rfl) | rfl) | rfl) | rfl
  · unfold mark? at hmark
    iterate 6
      split at hmark
      case isTrue heq =>
        subst heq
        revert h
        decide
    cases hmark
  all_goals
    revert h
    decide

theorem wordToken?_of_read? {cs : List Char} {n : Number} (h : Number.read? cs = some n) :
    wordToken? cs = some (.number n) := by
  obtain ⟨-, hall⟩ := Number.read?_eq_some h
  have hne : ∀ {c : Char} {word : List Char}, isNumeralChar c = false → c ∈ word → cs ≠ word := by
    rintro c _ hc hmem rfl
    rw [hall c hmem] at hc
    cases hc
  rw [wordToken?, if_neg (hne (c := 'n') (by decide) (by decide)),
    if_neg (hne (c := 't') (by decide) (by decide)),
    if_neg (hne (c := 'f') (by decide) (by decide)), h]
  rfl

/-- What a bare word has to be like for the scanner to take it as a whole. -/
theorem Token.word_spec {t : Token} (hword : t.isWord = true) (hreadable : t.isReadable = true) :
    t.text.toList ≠ [] ∧ (∀ c ∈ t.text.toList, endsWord c = false) ∧
      wordToken? t.text.toList = some t.readBack := by
  cases t with
  | null => exact ⟨by decide, by simp [text, endsWord, mark?, isGap], rfl⟩
  | bool b =>
      cases b with
      | false => exact ⟨by decide, by simp [text, endsWord, mark?, isGap], rfl⟩
      | true => exact ⟨by decide, by simp [text, endsWord, mark?, isGap], rfl⟩
  | number n =>
      obtain ⟨m, hm⟩ := Option.isSome_iff_exists.mp hreadable
      obtain ⟨hne, hall⟩ := Number.read?_eq_some hm
      refine ⟨hne, fun c hc => isNumeralChar_not_endsWord (hall c hc), ?_⟩
      rw [readBack, Number.readBack, Token.text, hm]
      exact wordToken?_of_read? hm
  | _ => cases hword

namespace Scanner

variable {s : Scanner} {ended : List Token} {c : Char} {cs : List Char}

/-- A scanner that has ended some tokens, or will have at the next character. -/
inductive Ready : Scanner → List Token → List Char → Prop
  | between {ended : List Token} {cs : List Char} : Ready ⟨.between, ended⟩ ended cs
  | word {held : List Char} {token : Token} {ended : List Token} {cs : List Char}
      (hword : wordToken? held.reverse = some token)
      (hends : ∀ c ∈ cs.head?, endsWord c = true) :
      Ready ⟨.word held, ended⟩ (token :: ended) cs

theorem Ready.step (h : Ready s ended (c :: cs)) : s.step c = some (begin ended c) := by
  cases h with
  | between => rfl
  | word hword hends =>
      rw [Scanner.step]
      simp only [hends c rfl, hword, if_true, Option.map_some]

theorem Ready.finish (h : Ready s ended []) : s.finish = some ended.reverse := by
  cases h with
  | between => rfl
  | word hword hends =>
      rw [Scanner.finish]
      simp only [hword, Option.map_some]

theorem begin_of_isGap (h : isGap c = true) : begin ended c = ⟨.between, ended⟩ := by
  have hmark : mark? c = none := by
    simp only [isGap, Bool.or_eq_true, beq_iff_eq] at h
    rcases h with ((rfl | rfl) | rfl) | rfl <;> decide
  rw [begin, hmark]
  simp only [h, if_true]

theorem begin_of_mark {t : Token} (h : mark? c = some t) :
    begin ended c = ⟨.between, t :: ended⟩ := by
  rw [begin, h]

theorem begin_of_not_endsWord (h : endsWord c = false) :
    begin ended c = ⟨.word [c], ended⟩ := by
  simp only [endsWord, Bool.or_eq_false_iff, Option.isSome_eq_false_iff,
    Option.isNone_iff_eq_none, beq_eq_false_iff_ne] at h
  obtain ⟨⟨hmark, hgap⟩, hquote⟩ := h
  rw [begin, hmark]
  simp [hgap, hquote]

theorem foldlM_word {held : List Char} (h : ∀ c ∈ cs, endsWord c = false) :
    cs.foldlM step ⟨.word held, ended⟩ = some ⟨.word (cs.reverse ++ held), ended⟩ := by
  induction cs generalizing held with
  | nil => rfl
  | cons c cs ih =>
      obtain ⟨hc, hcs⟩ := List.forall_mem_cons.mp h
      have hstep : step ⟨.word held, ended⟩ c = some ⟨.word (c :: held), ended⟩ := by
        simp [step, hc]
      rw [List.foldlM_cons, hstep]
      simp only [Option.bind_eq_bind, Option.bind_some]
      rw [ih hcs]
      simp

theorem foldlM_escaped {held : List Char} (h : Escaped c cs) :
    cs.foldlM step ⟨.string held, ended⟩ = some ⟨.string (cs.reverse ++ held), ended⟩ := by
  cases h with
  | plain hquote hbackslash hcontrol => simp [step, hquote, hbackslash]
  | short he hu => simp [step]
  | code hunit hlow ha hb => simp [step, ha, hb]

theorem foldlM_flatMap_escapeChar {held : List Char} :
    (cs.flatMap escapeChar).foldlM step ⟨.string held, ended⟩ =
      some ⟨.string ((cs.flatMap escapeChar).reverse ++ held), ended⟩ := by
  induction cs generalizing held with
  | nil => rfl
  | cons c cs ih =>
      rw [List.flatMap_cons, List.foldlM_append, foldlM_escaped (escaped_escapeChar c)]
      simp only [Option.bind_eq_bind, Option.bind_some]
      rw [ih]
      simp

/-- A scanner goes over the text of a token and has then ended it, or will have. -/
theorem Ready.token {t : Token} (h : Ready s ended (t.text.toList ++ cs))
    (hreadable : t.isReadable = true) (hends : t.isWord = true → ∀ c ∈ cs.head?, endsWord c = true) :
    ∃ s', t.text.toList.foldlM Scanner.step s = some s' ∧ Ready s' (t.readBack :: ended) cs := by
  have hmark : ∀ {c : Char}, t.text.toList = [c] → mark? c = some t.readBack →
      ∃ s', t.text.toList.foldlM Scanner.step s = some s' ∧ Ready s' (t.readBack :: ended) cs := by
    intro c htext hmark
    rw [htext] at h
    rw [htext, List.foldlM_cons, h.step, begin_of_mark hmark]
    exact ⟨_, rfl, .between⟩
  by_cases hword : t.isWord = true
  · obtain ⟨hne, hall, htoken⟩ := Token.word_spec hword hreadable
    obtain ⟨c, rest, htext⟩ := List.exists_cons_of_ne_nil hne
    rw [htext] at hall htoken h
    obtain ⟨hc, hrest⟩ := List.forall_mem_cons.mp hall
    have hheld : wordToken? (rest.reverse ++ [c]).reverse = some t.readBack := by simpa using htoken
    rw [htext, List.foldlM_cons, h.step, begin_of_not_endsWord hc]
    simp only [Option.bind_eq_bind, Option.bind_some]
    rw [foldlM_word hrest]
    exact ⟨_, rfl, .word hheld (hends hword)⟩
  · cases t with
    | null => exact absurd rfl hword
    | bool b => exact absurd rfl hword
    | number n => exact absurd rfl hword
    | openArray => exact hmark (c := '[') rfl rfl
    | closeArray => exact hmark (c := ']') rfl rfl
    | openObject => exact hmark (c := '\x7b') rfl rfl
    | closeObject => exact hmark (c := '\x7d') rfl rfl
    | comma => exact hmark (c := ',') rfl rfl
    | colon => exact hmark (c := ':') rfl rfl
    | string text =>
        have htext : (Token.string text).text.toList =
            '"' :: text.toList.flatMap escapeChar ++ ['"'] := by simp [Token.text]
        have hquote : begin ended '"' = ⟨.string [], ended⟩ := by simp [begin, mark?, isGap]
        rw [htext, List.cons_append] at h
        rw [htext, List.cons_append, List.foldlM_cons, h.step, hquote]
        simp only [Option.bind_eq_bind, Option.bind_some]
        rw [List.foldlM_append, foldlM_flatMap_escapeChar]
        refine ⟨_, ?_, .between⟩
        simp [Scanner.step, unescape_flatMap_escapeChar, Token.readBack]

end Scanner

/-- Scanning a text of some tokens finds them again, except that numbers are what they read as. -/
theorem Spells.foldlM {ts : List Token} {cs : List Char} (h : Spells ts cs)
    (hreadable : ∀ t ∈ ts, t.isReadable = true) {s : Scanner} {ended : List Token}
    (hready : s.Ready ended cs) :
    ∃ s', cs.foldlM Scanner.step s = some s' ∧
      s'.Ready ((ts.map Token.readBack).reverse ++ ended) [] := by
  induction h generalizing s ended with
  | nil => exact ⟨s, rfl, hready⟩
  | @gap c ts cs hgap h ih =>
      rw [List.foldlM_cons, hready.step, Scanner.begin_of_isGap hgap]
      exact ih hreadable .between
  | @token t ts cs hends h ih =>
      obtain ⟨ht, hts⟩ := List.forall_mem_cons.mp hreadable
      obtain ⟨s', hs', hready'⟩ := hready.token ht hends
      rw [List.foldlM_append, hs']
      obtain ⟨s'', hs'', hready''⟩ := ih hts hready'
      refine ⟨s'', hs'', ?_⟩
      simpa using hready''

theorem Spells.scan {ts : List Token} {cs : List Char} (h : Spells ts cs)
    (hreadable : ∀ t ∈ ts, t.isReadable = true) : scan cs = some (ts.map Token.readBack) := by
  obtain ⟨s, hs, hready⟩ := h.foldlM hreadable .between
  rw [Json.scan, hs, Option.bind_some, hready.finish]
  simp

end Scaffold.Json
