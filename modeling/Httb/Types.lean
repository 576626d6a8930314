import Httb.Foundation.Regex
import Httb.Foundation.Splitting
import Mathlib.Algebra.Group.Nat.Defs

/-!
# Strings, Pairs and the toolbox Library

The types of `include/httb/types.h`, and the string helpers that httb takes from the
third-party library toolbox. The sources of toolbox are not part of the repository, so
its functions are a parameter (`Toolbox`) whose fields include what is documented about
them; `Toolbox.reference` is one library that behaves so.

A `std::string` is the list of its `char`s.
-/

namespace Httb

open Httb.Foundation

/-- `std::string`. -/
abbrev Str := List Char

/-- `httb::kv`. -/
abbrev Kv := Str × Str

/-- `httb::kv_vector`. -/
abbrev KvVector := List Kv

/-! ## Characters and numbers -/

/-- `tolower` of the C locale. -/
def tolower (c : Char) : Char := c.toLower

@[simp] theorem tolower_tolower (c : Char) : tolower (tolower c) = tolower c := by
  by_cases h : c.val ≥ 'A'.val ∧ c.val ≤ 'Z'.val
  · -- an upper-case letter moves out of the range that is moved
    have hval : (tolower c).val = c.val + ('a'.val - 'A'.val) := congrArg Char.val (dif_pos h)
    have hout : ¬ ((tolower c).val ≥ 'A'.val ∧ (tolower c).val ≤ 'Z'.val) := by
      rw [hval]
      simp only [ge_iff_le, UInt32.le_iff_toNat_le, UInt32.toNat_add] at h ⊢
      have hA : 'A'.val.toNat = 65 := rfl
      have hZ : 'Z'.val.toNat = 90 := rfl
      have hd : ('a'.val - 'A'.val).toNat = 32 := rfl
      omega
    exact dif_neg hout
  · have hsame : tolower c = c := dif_neg h
    rw [hsame, hsame]

/-- `httb::to_string` and the stream output of an unsigned integer. -/
def decimal (n : Nat) : Str := Nat.toDigits 10 n

theorem decimal_injective {m n : Nat} (h : decimal m = decimal n) : m = n := by
  have hm := Nat.ofDigitChars_toDigits (b := 10) (n := m) (by decide) (by decide)
  have hn := Nat.ofDigitChars_toDigits (b := 10) (n := n) (by decide) (by decide)
  rw [decimal, decimal] at h
  rw [← hm, h, hn]

/-- The number that a text of digits stands for. -/
def decimalValue (s : Str) : ℕ := Nat.ofDigitChars 10 s 0

theorem decimalValue_decimal (n : ℕ) : decimalValue (decimal n) = n :=
  Nat.ofDigitChars_ten_toDigits

theorem decimalValue_lt {s : Str} (h : ∀ c ∈ s, c.isDigit = true) :
    decimalValue s < 10 ^ s.length := by
  -- by induction on the digits, with what was read before them
  have hread : ∀ (s : Str) (init : ℕ), (∀ c ∈ s, c.isDigit = true) →
      Nat.ofDigitChars 10 s init < 10 ^ s.length * (init + 1) := by
    intro s
    induction s with
    | nil => simp
    | cons c s ih =>
      intro init h
      obtain ⟨hc, hs⟩ := List.forall_mem_cons.mp h
      have hdigit : c.toNat - '0'.toNat < 10 := by
        have hcodes := Char.isDigit_iff_toNat.mp hc
        have hzero : '0'.toNat = 48 := rfl
        have hnine : '9'.toNat = 57 := rfl
        omega
      rw [Nat.ofDigitChars_cons, List.length_cons, Nat.pow_succ]
      calc Nat.ofDigitChars 10 s (10 * init + (c.toNat - '0'.toNat))
          < 10 ^ s.length * (10 * init + (c.toNat - '0'.toNat) + 1) := ih _ hs
        _ ≤ 10 ^ s.length * (10 * (init + 1)) := by
            apply Nat.mul_le_mul_left
            omega
        _ = 10 ^ s.length * 10 * (init + 1) := by rw [Nat.mul_assoc]
  simpa [decimalValue] using hread s 0 h

/-- What `std::stoi` throws. -/
inductive StoiError where
  | invalidArgument
  | outOfRange
  deriving DecidableEq

/-- `isspace` of the C locale. -/
def isSpace (c : Char) : Bool := c == ' ' || 9 ≤ c.toNat && c.toNat ≤ 13

/-- `std::stoi` to base ten: blanks, perhaps a sign, and digits up to the first character
that is none. -/
def stoi (s : Str) : Except StoiError Int32 :=
  let s := s.dropWhile isSpace
  let signed := s.head? = some '-' ∨ s.head? = some '+'
  let digits := (if signed then s.drop 1 else s).takeWhile Char.isDigit
  if digits.isEmpty then .error .invalidArgument
  else
    let value : Int := if s.head? = some '-' then -decimalValue digits else decimalValue digits
    if value < Int32.minValue.toInt ∨ Int32.maxValue.toInt < value then .error .outOfRange
    else .ok (Int32.ofInt value)

/-- A text of digits is converted when its number is one of an `int`. -/
theorem stoi_of_digits {s : Str} (hne : s ≠ []) (h : ∀ c ∈ s, c.isDigit = true)
    (hrange : decimalValue s < 2 ^ 31) : stoi s = .ok (Int32.ofNat (decimalValue s)) := by
  obtain ⟨c, rest, rfl⟩ := List.exists_cons_of_ne_nil hne
  -- the first character is neither a blank nor a sign
  have hc := h c List.mem_cons_self
  have hother : c ≠ ' ' ∧ c ≠ '-' ∧ c ≠ '+' := by
    refine ⟨?_, ?_, ?_⟩
    all_goals
      rintro rfl
      exact absurd hc (by decide)
  have hspace : isSpace c = false := by
    have hcodes := Char.isDigit_iff_toNat.mp hc
    have hzero : '0'.toNat = 48 := rfl
    have hlarge : ¬ c.toNat ≤ 13 := by omega
    simp [isSpace, hother.1, hlarge]
  have hall : (c :: rest).takeWhile Char.isDigit = c :: rest := by
    rw [List.takeWhile_eq_self_iff]
    exact h
  have hmin : Int32.minValue.toInt = -2 ^ 31 := rfl
  have hmax : Int32.maxValue.toInt = 2 ^ 31 - 1 := rfl
  have hinside : ¬ ((decimalValue (c :: rest) : Int) < Int32.minValue.toInt ∨
      Int32.maxValue.toInt < decimalValue (c :: rest)) := by
    rw [hmin, hmax]
    omega
  simp only [stoi, List.dropWhile_cons_of_neg (by simp [hspace] : ¬ isSpace c = true),
    List.head?_cons, Option.some.injEq, hother.2.1, hother.2.2, or_self, if_false, hall, hinside]
  rfl

/-! ## Case-insensitive maps -/

/-- `httb::case_insensitive_equal`. -/
def caseInsensitiveEqual (str1 str2 : Str) : Bool :=
  str1.length == str2.length && (str1.zip str2).all fun (a, b) => tolower a == tolower b

/-- `httb::icase_map_t`: an unordered map is given by the order in which it is iterated;
its keys are pairwise different under `icase_equal_t`. -/
structure IcaseMap where
  entries : KvVector
  distinct : entries.Pairwise fun a b => caseInsensitiveEqual a.1 b.1 = false

/-- `httb::icase_multimap_t`, in the order in which it is iterated. -/
structure IcaseMultimap where
  entries : KvVector

/-! ## toolbox -/

/-- The functions of `toolbox::strings` that httb calls, with their documented behaviour. -/
class Toolbox where
  toLowerCase : Str → Str
  equalsIcase : Str → Str → Bool
  split : Str → Char → List Str
  splitStr : Str → Str → List Str
  splitPair : Str → Char → Kv
  splitPairStr : Str → Str → Kv
  glue : Str → List Str → Str
  matchesPattern : Regex Char → Str → Bool
  /-- Lower-casing is character by character. -/
  toLowerCase_eq : ∀ s, toLowerCase s = s.map tolower
  /-- Strings are equal up to case when their lower-cased forms are equal. -/
  equalsIcase_iff : ∀ a b, equalsIcase a b = true ↔ toLowerCase a = toLowerCase b
  /-- The string is cut at every delimiter; empty pieces are kept. -/
  split_eq : ∀ s d, split s d = s.splitOn d
  splitStr_eq : ∀ s d, splitStr s [d] = s.splitOn d
  /-- The string is cut at the first delimiter; without one the second part is empty. -/
  splitPair_eq : ∀ s d, splitPair s d = cutFirst d s
  splitPairStr_eq : ∀ s d, splitPairStr s [d] = cutFirst d s
  /-- The strings are joined with the separator between them. -/
  glue_eq : ∀ sep xs, glue sep xs = sep.intercalate xs
  /-- A string is accepted when it matches as a whole. -/
  matchesPattern_iff : ∀ re s, matchesPattern re s = true ↔ re.MatchesWhole s

export Toolbox (toLowerCase equalsIcase split splitStr splitPair splitPairStr glue matchesPattern)

/-- A toolbox that does what the documentation says, and nothing else. -/
@[reducible] def Toolbox.reference : Toolbox where
  toLowerCase s := s.map tolower
  equalsIcase a b := a.map tolower == b.map tolower
  split s d := s.splitOn d
  splitStr s d := s.splitOn (d.headD ' ')
  splitPair s d := cutFirst d s
  splitPairStr s d := cutFirst (d.headD ' ') s
  glue sep xs := sep.intercalate xs
  matchesPattern re s := decide (re.MatchesWhole s)
  toLowerCase_eq _ := rfl
  equalsIcase_iff _ _ := by simp
  split_eq _ _ := rfl
  splitStr_eq _ _ := rfl
  splitPair_eq _ _ := rfl
  splitPairStr_eq _ _ := rfl
  glue_eq _ _ := rfl
  matchesPattern_iff _ _ := by simp

variable [Toolbox]

@[simp] theorem toLowerCase_toLowerCase (s : Str) :
    toLowerCase (toLowerCase s) = toLowerCase s := by
  rw [Toolbox.toLowerCase_eq, Toolbox.toLowerCase_eq, List.map_map]
  exact List.map_congr_left fun c _ => tolower_tolower c

/-- Comparing up to case is comparing the lower-cased strings. -/
theorem equalsIcase_eq_decide (a b : Str) :
    equalsIcase a b = decide (toLowerCase a = toLowerCase b) := by
  rw [Bool.eq_iff_iff, decide_eq_true_iff]
  exact Toolbox.equalsIcase_iff a b

theorem equalsIcase_self (a : Str) : equalsIcase a a = true := by
  rw [equalsIcase_eq_decide, decide_eq_true_iff]

end Httb
