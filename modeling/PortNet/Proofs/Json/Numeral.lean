import Mathlib.Data.List.Basic
import PortNet.Json.Numeral
import PortNet.Json.Printer

namespace PortNet.Json

/-- A whole number of 64 bits, with or without a sign. The zero with a sign is kept as a double. -/
def Number.Whole : Number → Prop
  | .integer n => -(Numeral.wordLimit : Int) ≤ 2 * n ∧ n < Numeral.wordLimit
  | .double d => d = ⟨true, Binary64.zero⟩

instance : DecidablePred Number.Whole
  | .integer n => inferInstanceAs (Decidable (-(Numeral.wordLimit : Int) ≤ 2 * n ∧ _))
  | .double d => inferInstanceAs (Decidable (d = _))

/-- What may follow a number: no digit, point or exponent that it could go on with. -/
def ClosesNumber (rest : List Char) : Prop :=
  ∀ c ∈ rest.head?, c.isDigit = false ∧ c ≠ '.' ∧ c ≠ 'e' ∧ c ≠ 'E'

namespace Numeral
variable {digits rest : List Char}

theorem isDigit_of_mem_toDigits {n : Nat} {c : Char} (h : c ∈ Nat.toDigits 10 n) :
    c.isDigit = true :=
  Nat.isDigit_of_mem_toDigits (by decide) (by decide) h

/-- A written number starts with a zero only if it is zero. -/
theorem head?_toDigits {n : Nat} (h : 0 < n) : (Nat.toDigits 10 n).head? ≠ some '0' := by
  induction n using Nat.strongRecOn with
  | ind n ih =>
    by_cases hn : n < 10
    · rw [Nat.toDigits_of_lt_base hn, List.head?_cons, Ne, Option.some.injEq,
        Nat.digitChar_eq_zero]
      omega
    · rw [Nat.toDigits_of_base_le (by decide) (by omega),
        List.head?_append_of_ne_nil _ Nat.toDigits_ne_nil]
      exact ih (n / 10) (by omega) (by omega)

/-- No written number is taken for one with a zero in front. -/
theorem not_leadingZero (n : Nat) :
    ¬ ((Nat.toDigits 10 n).head? = some '0' ∧ 1 < (Nat.toDigits 10 n).length) := by
  intro hall
  obtain ⟨hzero, hlength⟩ := hall
  cases Nat.eq_zero_or_pos n with
  | inl hn =>
    rw [hn, Nat.toDigits_zero] at hlength
    exact absurd hlength (by decide)
  | inr hn => exact head?_toDigits hn hzero

theorem digitsValue_toDigits (n : Nat) : digitsValue (Nat.toDigits 10 n) = n :=
  Nat.ofDigitChars_ten_toDigits

theorem scanDigits_append (hne : digits ≠ []) (hdigits : ∀ c ∈ digits, c.isDigit = true)
    (hrest : ∀ c ∈ rest.head?, c.isDigit = false) :
    scanDigits (digits ++ rest) = .ok (digits, rest) := by
  have htake : rest.takeWhile Char.isDigit = [] := by
    cases rest with
    | nil => rfl
    | cons c rest => rw [List.takeWhile_cons_of_neg (by simp [hrest c rfl])]
  have hdrop : rest.dropWhile Char.isDigit = rest := by
    cases rest with
    | nil => rfl
    | cons c rest => rw [List.dropWhile_cons_of_neg (by simp [hrest c rfl])]
  rw [scanDigits, List.takeWhile_append_of_pos hdigits, List.dropWhile_append_of_pos hdigits,
    htake, hdrop, List.append_nil]
  cases digits with
  | nil => exact absurd rfl hne
  | cons c digits => rfl

theorem scanPlaces_of_closes (hrest : ClosesNumber rest) : scanPlaces rest = .ok ([], rest) := by
  cases rest with
  | nil => rfl
  | cons c rest =>
    obtain ⟨_, hpoint, _⟩ := hrest c rfl
    unfold scanPlaces
    split
    · rename_i heq
      exact absurd (List.cons.inj heq).1 hpoint
    · rfl

theorem scanExponent_of_closes (hrest : ClosesNumber rest) :
    scanExponent rest = .ok (none, rest) := by
  cases rest with
  | nil => rfl
  | cons c rest =>
    obtain ⟨_, _, hlower, hupper⟩ := hrest c rfl
    unfold scanExponent
    exact if_neg (not_or.mpr ⟨hlower, hupper⟩)

/-- Reading takes in exactly the digits of a written number. -/
theorem scan_toDigits (n : Nat) (hrest : ClosesNumber rest) :
    scan (Nat.toDigits 10 n ++ rest) = .ok (⟨false, Nat.toDigits 10 n, [], none⟩, rest) := by
  have hdigits := scanDigits_append Nat.toDigits_ne_nil (fun c => isDigit_of_mem_toDigits (n := n))
    fun c hc => (hrest c hc).1
  obtain ⟨c, cs, hcs⟩ := List.exists_cons_of_ne_nil (Nat.toDigits_ne_nil (n := n) (b := 10))
  have hminus : c ≠ '-' := by
    rintro rfl
    exact absurd (isDigit_of_mem_toDigits (n := n) (hcs ▸ List.mem_cons_self)) (by decide)
  have hzero := not_leadingZero n
  rw [hcs, List.cons_append] at hdigits
  rw [hcs] at hzero
  rw [hcs, List.cons_append]
  simp only [scan, List.cons.injEq, hminus, false_and, imp_self, implies_true, hdigits, bind,
    Except.bind, if_neg hzero, scanPlaces_of_closes hrest, scanExponent_of_closes hrest]

theorem scan_minus_toDigits (n : Nat) (hrest : ClosesNumber rest) :
    scan ('-' :: (Nat.toDigits 10 n ++ rest)) =
      .ok (⟨true, Nat.toDigits 10 n, [], none⟩, rest) := by
  have hdigits := scanDigits_append Nat.toDigits_ne_nil (fun c => isDigit_of_mem_toDigits (n := n))
    fun c hc => (hrest c hc).1
  simp only [scan, hdigits, bind, Except.bind, if_neg (not_leadingZero n),
    scanPlaces_of_closes hrest, scanExponent_of_closes hrest]

theorem toNumber_toDigits {n : Nat} (hn : n < wordLimit) :
    toNumber ⟨false, Nat.toDigits 10 n, [], none⟩ = .ok (.integer n) := by
  simp [toNumber, digitsValue_toDigits, hn]

theorem toNumber_minus_toDigits {n : Nat} (hpos : 0 < n) (hn : 2 * n ≤ wordLimit) :
    toNumber ⟨true, Nat.toDigits 10 n, [], none⟩ = .ok (.integer (-n)) := by
  simp [toNumber, digitsValue_toDigits, hpos, hn]

theorem scale_zero : Binary64.scale Binary64.zero (-1) = some Binary64.zero := by
  obtain ⟨ten, hten⟩ := Option.isSome_iff_exists.mp
    (show (Binary64.tenPower 1).isSome = true by decide +kernel)
  change Binary64.shrink Binary64.zero 1 = some Binary64.zero
  rw [Binary64.shrink, if_pos (by decide), hten]
  change Binary64.quotient Binary64.zero ten = some Binary64.zero
  have hnone : (Binary64.fraction Binary64.zero.val).1 = 0 := by decide +kernel
  change Binary64.nearest ((Binary64.fraction Binary64.zero.val).1 * _) _ = some Binary64.zero
  rw [hnone, Nat.zero_mul, Binary64.nearest, if_pos rfl]

theorem toNumber_minusZero :
    toNumber ⟨true, ['0'], ['0'], none⟩ = .ok (.double ⟨true, Binary64.zero⟩) := by
  have hleading : leading ⟨true, ['0'], ['0'], none⟩ = (0, -1) := by decide +kernel
  have hzero : Binary64.nearest 0 1 = some Binary64.zero := by
    rw [Binary64.nearest, if_pos rfl]
  have hdouble : toDouble ⟨true, ['0'], ['0'], none⟩ = .ok ⟨true, Binary64.zero⟩ := by
    unfold toDouble
    rw [hleading]
    dsimp only
    rw [hzero, Option.bind_some, scale_zero]
  simp [toNumber, hdouble, bind, Except.bind]

/-- The double that is written with a sign and without a value. -/
theorem scan_minusZero (hrest : ClosesNumber rest) :
    scan ('-' :: '0' :: '.' :: '0' :: rest) = .ok (⟨true, ['0'], ['0'], none⟩, rest) := by
  have hzero : ∀ c ∈ ['0'], c.isDigit = true := List.forall_mem_singleton.mpr rfl
  have hwhole : scanDigits ('0' :: '.' :: '0' :: rest) = .ok (['0'], '.' :: '0' :: rest) :=
    scanDigits_append (List.cons_ne_nil _ _) hzero (by simp)
  have hplaces : scanDigits ('0' :: rest) = .ok (['0'], rest) :=
    scanDigits_append (List.cons_ne_nil _ _) hzero fun c hc => (hrest c hc).1
  simp [scan, hwhole, scanPlaces, hplaces, bind, Except.bind, scanExponent_of_closes hrest]

end Numeral

/-- A number that is written and read again is the same number. -/
theorem exists_scan_writeNumber {n : Number} {rest : List Char} (hn : n.Whole)
    (hrest : ClosesNumber rest) : ∃ numeral,
      Numeral.scan (writeNumber n ++ rest) = .ok (numeral, rest) ∧ numeral.toNumber = .ok n := by
  match n, hn with
  | .integer (.ofNat n), hn =>
    refine ⟨_, Numeral.scan_toDigits n hrest, Numeral.toNumber_toDigits ?_⟩
    exact Int.ofNat_lt.mp hn.2
  | .integer (.negSucc n), hn =>
    refine ⟨_, Numeral.scan_minus_toDigits (n + 1) hrest, ?_⟩
    refine Numeral.toNumber_minus_toDigits (Nat.succ_pos n) ?_
    have := hn.1
    omega
  | .double _, rfl =>
    exact ⟨_, Numeral.scan_minusZero hrest, Numeral.toNumber_minusZero⟩

end PortNet.Json
