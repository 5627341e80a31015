import Mathlib.Data.String.Basic
import Mathlib.Tactic.IntervalCases

/-!
# The order of bytes

Texts are compared character by character. In a file a text is a list of bytes, and whoever
looks at the file compares these. Both orders are the same, which is `bytes_lt_bytes_iff`, so
what stands in ascending order does so for any reader.

A character takes one to four bytes. Behind the first byte each one carries six bits of its
number, and the first byte carries the bits that are left, with a mark that tells how many bytes
follow. A character with more bytes has the greater mark. Two characters with equally many
bytes have the same mark, and then their bytes are the digits of their numbers.
-/

namespace Scaffold.Text

/-- One list of bytes comes before another, whatever follows the two. -/
def Below (as bs : List UInt8) : Prop :=
  ∀ rest rest', as ++ rest < bs ++ rest'

theorem below_cons {a b : UInt8} (h : a < b) (as bs : List UInt8) : Below (a :: as) (b :: bs) :=
  fun _ _ => List.cons_lt_cons_iff.mpr (.inl h)

theorem Below.concat {as bs : List UInt8} (h : Below as bs) (a b : UInt8) :
    Below (as ++ [a]) (bs ++ [b]) := by
  intro rest rest'
  rw [List.append_assoc, List.append_assoc]
  exact h _ _

theorem below_concat {a b : UInt8} (h : a < b) (as : List UInt8) :
    Below (as ++ [a]) (as ++ [b]) := by
  intro rest rest'
  rw [List.append_assoc, List.append_assoc]
  exact List.append_left_lt (List.cons_lt_cons_iff.mpr (.inl h))

theorem byte_lt {m n : Nat} (h : m < n) (hn : n < 256) : UInt8.ofNat m < UInt8.ofNat n := by
  rw [UInt8.lt_iff_toNat_lt, UInt8.toNat_ofNat', UInt8.toNat_ofNat',
    Nat.mod_eq_of_lt (h.trans hn), Nat.mod_eq_of_lt hn]
  exact h

/-- The bytes of a number: a marked one, and some behind it with six bits each. -/
def encoded (mark : Nat) : Nat → Nat → List UInt8
  | 0, n => [UInt8.ofNat (n + mark)]
  | behind + 1, n => encoded mark behind (n / 64) ++ [UInt8.ofNat (n % 64 + 128)]

variable {mark behind fewer more m n : Nat}

theorem exists_encoded_eq_cons (mark behind n : Nat) :
    ∃ rest, encoded mark behind n = UInt8.ofNat (n / 64 ^ behind + mark) :: rest := by
  induction behind generalizing n with
  | zero => exact ⟨[], by simp [encoded]⟩
  | succ behind ih =>
      obtain ⟨rest, hrest⟩ := ih (n / 64)
      refine ⟨rest ++ [UInt8.ofNat (n % 64 + 128)], ?_⟩
      rw [encoded, hrest, Nat.div_div_eq_div_mul, ← Nat.pow_succ', List.cons_append]

theorem below_encoded (h : m < n) (hn : n / 64 ^ behind + mark < 256) :
    Below (encoded mark behind m) (encoded mark behind n) := by
  induction behind generalizing m n with
  | zero =>
      rw [pow_zero, Nat.div_one] at hn
      exact below_cons (byte_lt (by omega) hn) [] []
  | succ behind ih =>
      rw [Nat.pow_succ', ← Nat.div_div_eq_div_mul] at hn
      rw [encoded, encoded]
      rcases Nat.lt_or_ge (m / 64) (n / 64) with hlt | hge
      · exact (ih hlt hn).concat _ _
      · -- Only the last six bits tell the two apart.
        have heq : m / 64 = n / 64 := by omega
        rw [heq]
        exact below_concat (byte_lt (by omega) (by omega)) _

/-- The mark of the first byte, by the number of bytes behind it. -/
def markOf : Nat → Nat
  | 0 => 0
  | 1 => 0xc0
  | 2 => 0xe0
  | _ => 0xf0

/-- The least number that needs so many bytes behind the first one. -/
def leastOf : Nat → Nat
  | 0 => 0
  | 1 => 0x80
  | 2 => 0x800
  | 3 => 0x10000
  | _ => 0x110000

theorem leastOf_mono : ∀ more < 4, ∀ fewer < more, leastOf (fewer + 1) ≤ leastOf more := by
  decide

theorem first_lt_byte (hbehind : behind < 4) (hn : n < leastOf (behind + 1)) :
    n / 64 ^ behind + markOf behind < 256 := by
  interval_cases behind <;> simp only [leastOf, markOf] at * <;> omega

theorem first_lt_first (h : fewer < more) (hmore : more < 4) (hm : m < leastOf (fewer + 1)) :
    m / 64 ^ fewer + markOf fewer < n / 64 ^ more + markOf more := by
  interval_cases more <;> interval_cases fewer <;> simp only [leastOf, markOf] at * <;> omega

theorem exists_encoded (c : Char) :
    ∃ behind < 4, leastOf behind ≤ c.toNat ∧ c.toNat < leastOf (behind + 1) ∧
      String.utf8EncodeChar c = encoded (markOf behind) behind c.toNat := by
  have hbound : c.toNat < 0x110000 := by
    rcases c.valid with h | h
    · exact Nat.lt_trans h (by decide)
    · exact h.2
  rw [String.utf8EncodeChar]
  simp only [Char.toNat_val]
  -- The bits for the first byte are cut to its width, which leaves them as they are.
  split_ifs with hone htwo hthree
  · refine ⟨0, by decide, Nat.zero_le _, Nat.lt_succ_of_le hone, ?_⟩
    simp [encoded, markOf]
  · have hfirst : c.toNat / 64 % 32 = c.toNat / 64 := Nat.mod_eq_of_lt (by omega)
    refine ⟨1, by decide, Nat.lt_of_not_le hone, Nat.lt_succ_of_le htwo, ?_⟩
    simp [encoded, markOf, hfirst]
  · have hfirst : c.toNat / 4096 % 16 = c.toNat / 4096 := Nat.mod_eq_of_lt (by omega)
    refine ⟨2, by decide, Nat.lt_of_not_le htwo, Nat.lt_succ_of_le hthree, ?_⟩
    simp [encoded, markOf, Nat.div_div_eq_div_mul, hfirst]
  · have hfirst : c.toNat / 262144 % 8 = c.toNat / 262144 := Nat.mod_eq_of_lt (by omega)
    refine ⟨3, by decide, Nat.lt_of_not_le hthree, hbound, ?_⟩
    simp [encoded, markOf, Nat.div_div_eq_div_mul, hfirst]

/-- Characters are in the order of their bytes, and the bytes of none begin those of another. -/
theorem below_utf8EncodeChar {c d : Char} (h : c < d) :
    Below (String.utf8EncodeChar c) (String.utf8EncodeChar d) := by
  have hlt : c.toNat < d.toNat := h
  obtain ⟨behind, hbehind, hleast, hbound, hc⟩ := exists_encoded c
  obtain ⟨behind', hbehind', -, hbound', hd⟩ := exists_encoded d
  have hbyte := first_lt_byte hbehind' hbound'
  rw [hc, hd]
  rcases lt_trichotomy behind behind' with hfewer | rfl | hmore
  · obtain ⟨rest, hrest⟩ := exists_encoded_eq_cons (markOf behind) behind c.toNat
    obtain ⟨rest', hrest'⟩ := exists_encoded_eq_cons (markOf behind') behind' d.toNat
    rw [hrest, hrest']
    exact below_cons (byte_lt (first_lt_first hfewer hbehind' hbound) hbyte) _ _
  · exact below_encoded hlt hbyte
  · have hless := leastOf_mono behind hbehind behind' hmore
    omega

/-- The bytes of a text. -/
def bytes (s : String) : List UInt8 :=
  s.toUTF8.data.toList

theorem bytes_eq (s : String) : bytes s = s.toList.flatMap String.utf8EncodeChar := by
  rw [bytes, String.toUTF8_eq_toByteArray, ← String.utf8Encode_toList, List.utf8Encode,
    List.toList_data_toByteArray]

theorem flatMap_utf8EncodeChar_lt {cs ds : List Char} (h : cs < ds) :
    cs.flatMap String.utf8EncodeChar < ds.flatMap String.utf8EncodeChar := by
  induction h with
  | @nil d ds =>
      obtain ⟨b, bs, hd⟩ := List.exists_cons_of_ne_nil (String.utf8EncodeChar_ne_nil (c := d))
      rw [List.flatMap_cons, hd]
      exact List.nil_lt_cons _ _
  | rel hlt => exact below_utf8EncodeChar hlt _ _
  | cons _ ih => exact List.append_left_lt ih

/-- Texts are in the order of their bytes. -/
theorem bytes_lt_bytes_iff {s t : String} : bytes s < bytes t ↔ s < t := by
  have hbytes : ∀ {s t : String}, s < t → bytes s < bytes t := by
    intro s t h
    rw [bytes_eq, bytes_eq]
    exact flatMap_utf8EncodeChar_lt (String.lt_iff_toList_lt.mp h)
  refine ⟨fun h => ?_, hbytes⟩
  rcases lt_trichotomy s t with hlt | rfl | hgt
  · exact hlt
  · exact absurd h (List.lt_irrefl _)
  · exact absurd h (List.lt_asymm (hbytes hgt))

end Scaffold.Text
