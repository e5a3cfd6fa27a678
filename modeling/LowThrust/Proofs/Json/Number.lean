import LowThrust.Json.Parser
import LowThrust.Json.Printer
import LowThrust.Proofs.Decimal.Digits

/-!
Numbers in documents: what is written for a decimal reads back as the decimal.
-/

namespace LowThrust.Json

open Decimal

/-- What follows a number does not go on with it. -/
def NumberEnds (cs : List Char) : Prop :=
  ∀ c ∈ cs.head?, c.isDigit = false ∧ c ≠ '.' ∧ c ≠ 'e' ∧ c ≠ 'E'

namespace NumberEnds

variable {rest : List Char}

theorem noDigitHead (h : NumberEnds rest) : NoDigitHead rest := fun c hc => (h c hc).1

theorem fraction?_eq_none (h : NumberEnds rest) : fraction? rest = none := by
  cases rest with
  | nil => rfl
  | cons c rest =>
    have point : c ≠ '.' := (h c rfl).2.1
    rw [fraction?]
    intro d rest h
    exact absurd (List.cons.inj h).1 point

theorem exponent?_eq_none (h : NumberEnds rest) : Json.exponent? rest = none := by
  cases rest with
  | nil => rfl
  | cons c rest =>
    have letter : ¬(c = 'e' ∨ c = 'E') := by
      rintro (rfl | rfl)
      · exact (h 'e' rfl).2.2.1 rfl
      · exact (h 'E' rfl).2.2.2 rfl
    simp [Json.exponent?, letter]

end NumberEnds

/-- Digits before the point: one zero, or digits that begin with another one. -/
structure IsWhole (ds : List Char) : Prop where
  digits : ∀ c ∈ ds, c.isDigit
  ne_nil : ds ≠ []
  eq_zero : ds.head? = some '0' → ds = ['0']

theorem splitWhole_append {ds rest : List Char} (h : IsWhole ds) (hrest : NoDigitHead rest) :
    splitWhole (ds ++ rest) = (ds, rest) := by
  by_cases hz : ds.head? = some '0'
  · rw [h.eq_zero hz]
    rfl
  · rw [splitWhole, takeWhile_isDigit_append h.digits hrest,
      dropWhile_isDigit_append h.digits hrest]
    intro tail eq
    cases ds with
    | nil => exact h.ne_nil rfl
    | cons c ds => exact hz (by simpa using (List.cons.inj eq).1)

theorem isWhole_toDigits (n : Nat) : IsWhole (Nat.toDigits 10 n) where
  digits _ h := isDigit_of_mem_toDigits h
  ne_nil := Nat.toDigits_ne_nil
  eq_zero h := by
    by_cases hn : n = 0
    · subst hn
      rfl
    · exact absurd h (head?_toDigits_ne hn)

theorem fraction?_append {ds rest : List Char} (hne : ds ≠ []) (hds : ∀ c ∈ ds, c.isDigit)
    (hrest : NoDigitHead rest) : fraction? ('.' :: (ds ++ rest)) = some (ds, rest) := by
  cases ds with
  | nil => contradiction
  | cons c ds =>
    have digits : ∀ d ∈ ds, d.isDigit := fun d hd => hds d (by simp [hd])
    simp only [List.cons_append, fraction?, hds c (by simp), if_true,
      takeWhile_isDigit_append digits hrest, dropWhile_isDigit_append digits hrest]

/-- A sign and digits are written for an exponent. -/
theorem exists_exponentChars_eq (n : Int) :
    ∃ ds, ds ≠ [] ∧ (∀ c ∈ ds, c.isDigit) ∧ digitsValue ds = n.natAbs ∧
      exponentChars n = (if n < 0 then '-' else '+') :: ds := by
  refine ⟨_, ?_, ?_, ?_, rfl⟩
  · split
    · simp
    · exact Nat.toDigits_ne_nil
  · split
    · simp only [List.mem_cons, forall_eq_or_imp]
      exact ⟨by decide, fun c => isDigit_of_mem_toDigits⟩
    · exact fun c => isDigit_of_mem_toDigits
  · split
    · exact digitsValue_toDigits _
    · exact digitsValue_toDigits _

theorem exponent?_exponentChars (n : Int) {rest : List Char} (hrest : NoDigitHead rest) :
    Json.exponent? ('e' :: (exponentChars n ++ rest)) = some (n, rest) := by
  obtain ⟨ds, ne, digits, value, eq⟩ := exists_exponentChars_eq n
  have sign : splitSign (exponentChars n ++ rest) = (decide (n < 0), ds ++ rest) := by
    rw [eq]
    by_cases h : n < 0 <;> simp [h, splitSign]
  simp only [Json.exponent?, sign, takeWhile_isDigit_append digits hrest,
    dropWhile_isDigit_append digits hrest, true_or, true_and, ne_eq, ne, not_false_iff, if_true,
    value]
  rw [signed_natAbs]

variable {α : Type} [DecimalText α] (negative : Bool) {whole : List Char} (fraction : List Char)
  {rest : List Char}

/-- Digits alone are an integer. -/
theorem number_whole (hw : IsWhole whole) (hlen : whole.length ≤ integerDigits)
    (hrest : NumberEnds rest) :
    number (α := α) negative (whole ++ rest) =
      .ok (.int (if negative then -digitsValue whole else digitsValue whole), rest) := by
  simp [number, splitWhole_append hw hrest.noDigitHead, hw.ne_nil, hrest.fraction?_eq_none,
    hrest.exponent?_eq_none, Nat.not_lt.mpr hlen]

theorem number_fraction (hw : IsWhole whole) (hne : fraction ≠ [])
    (hf : ∀ c ∈ fraction, c.isDigit) (hrest : NumberEnds rest) :
    number (α := α) negative (whole ++ '.' :: (fraction ++ rest)) =
      .ok (.real (DecimalText.ofDecimal (.ofDigits negative whole fraction 0)), rest) := by
  have point : NoDigitHead ('.' :: (fraction ++ rest)) := by
    rintro c ⟨⟩
    rfl
  simp [number, splitWhole_append hw point, hw.ne_nil, fraction?_append hne hf hrest.noDigitHead,
    hrest.exponent?_eq_none]

theorem number_exponent (hw : IsWhole whole) (power : Int) (hrest : NumberEnds rest) :
    number (α := α) negative (whole ++ 'e' :: (exponentChars power ++ rest)) =
      .ok (.real (DecimalText.ofDecimal (.ofDigits negative whole [] power)), rest) := by
  have letter : NoDigitHead ('e' :: (exponentChars power ++ rest)) := by
    rintro c ⟨⟩
    rfl
  have pointless : fraction? ('e' :: (exponentChars power ++ rest)) = none := rfl
  simp [number, splitWhole_append hw letter, hw.ne_nil, pointless,
    exponent?_exponentChars power hrest.noDigitHead]

theorem number_fraction_exponent (hw : IsWhole whole) (hne : fraction ≠ [])
    (hf : ∀ c ∈ fraction, c.isDigit) (power : Int) (hrest : NumberEnds rest) :
    number (α := α) negative
        (whole ++ '.' :: (fraction ++ 'e' :: (exponentChars power ++ rest))) =
      .ok (.real (DecimalText.ofDecimal (.ofDigits negative whole fraction power)), rest) := by
  have point : NoDigitHead ('.' :: (fraction ++ 'e' :: (exponentChars power ++ rest))) := by
    rintro c ⟨⟩
    rfl
  have letter : NoDigitHead ('e' :: (exponentChars power ++ rest)) := by
    rintro c ⟨⟩
    rfl
  simp [number, splitWhole_append hw point, hw.ne_nil, fraction?_append hne hf letter,
    exponent?_exponentChars power hrest.noDigitHead]

/-! ### Layouts -/

theorem isDigit_of_mem_replicate {k : Nat} {c : Char} (h : c ∈ List.replicate k '0') :
    c.isDigit := by
  rw [List.eq_of_mem_replicate h]
  rfl

/-- Zeros after the point. -/
theorem number_leading {n : Nat} (k : Nat) (hrest : NumberEnds rest) :
    number (α := α) negative
        ('0' :: '.' :: (List.replicate k '0' ++ Nat.toDigits 10 n ++ rest)) =
      .ok (.real (DecimalText.ofDecimal
        (normalize (.finite negative n (-((Nat.toDigits 10 n).length + k : Nat))))), rest) := by
  have value : digitsValue (['0'] ++ (List.replicate k '0' ++ Nat.toDigits 10 n)) = n := by
    rw [digitsValue_append, digitsValue_append, digitsValue_toDigits, digitsValue_replicate_zero]
    simp [digitsValue]
  have power : 0 - ((List.replicate k '0' ++ Nat.toDigits 10 n).length : Int) =
      -((Nat.toDigits 10 n).length + k : Nat) := by
    simp only [List.length_append, List.length_replicate]
    omega
  have digits : ∀ c ∈ List.replicate k '0' ++ Nat.toDigits 10 n, c.isDigit := by
    simp only [List.mem_append, or_imp, forall_and]
    exact ⟨fun c => isDigit_of_mem_replicate, fun c => isDigit_of_mem_toDigits⟩
  have whole : IsWhole ['0'] := ⟨List.forall_mem_singleton.mpr rfl, by decide, fun _ => rfl⟩
  have read := number_fraction (α := α) negative _ whole (by simp) digits hrest
  rw [ofDigits, value, power] at read
  exact read

/-- Zeros before the point. -/
theorem number_trailing {n : Nat} (k : Nat) (hk : n = 0 → k = 0) (hrest : NumberEnds rest) :
    number (α := α) negative
        (Nat.toDigits 10 n ++ List.replicate k '0' ++ '.' :: '0' :: rest) =
      .ok (.real (DecimalText.ofDecimal (normalize (.finite negative n k))), rest) := by
  have value : digitsValue (Nat.toDigits 10 n ++ List.replicate k '0' ++ ['0']) =
      n * tenTo (k + 1) := by
    rw [digitsValue_append, digitsValue_append, digitsValue_toDigits, digitsValue_replicate_zero,
      List.length_replicate, tenTo_add, ← Nat.mul_assoc]
    rfl
  have power : 0 - (['0'].length : Int) + (k + 1 : Nat) = k := by
    simp only [List.length_singleton]
    omega
  have whole : IsWhole (Nat.toDigits 10 n ++ List.replicate k '0') := by
    refine ⟨?_, by simp, ?_⟩
    · simp only [List.mem_append, or_imp, forall_and]
      exact ⟨fun c => isDigit_of_mem_toDigits, fun c => isDigit_of_mem_replicate⟩
    · intro head
      by_cases hn : n = 0
      · rw [hk hn, hn]
        rfl
      · rw [List.head?_append, Option.or_eq_some_iff] at head
        obtain head | head := head
        · exact absurd head (head?_toDigits_ne hn)
        · exact absurd head.1 (by simp)
  have read := number_fraction (α := α) negative ['0'] whole (by simp)
    (List.forall_mem_singleton.mpr rfl) hrest
  rw [ofDigits, value, normalize_mul_tenTo, power] at read
  exact read

/-- The point among the digits. -/
theorem number_within {n k : Nat} (pos : 0 < k) (lt : k < (Nat.toDigits 10 n).length)
    (hrest : NumberEnds rest) :
    number (α := α) negative
        ((Nat.toDigits 10 n).take k ++ '.' :: ((Nat.toDigits 10 n).drop k ++ rest)) =
      .ok (.real (DecimalText.ofDecimal
        (normalize (.finite negative n (k - (Nat.toDigits 10 n).length)))), rest) := by
  have power : 0 - (((Nat.toDigits 10 n).drop k).length : Int) =
      k - (Nat.toDigits 10 n).length := by
    rw [List.length_drop]
    omega
  have whole : IsWhole ((Nat.toDigits 10 n).take k) := by
    refine ⟨fun c hc => isDigit_of_mem_toDigits (List.mem_of_mem_take hc), ?_, ?_⟩
    · intro nil
      have := congrArg List.length nil
      simp only [List.length_take, List.length_nil] at this
      omega
    · intro head
      rw [List.head?_take, if_neg (by omega)] at head
      rw [(isWhole_toDigits n).eq_zero head] at lt
      simp only [List.length_singleton] at lt
      omega
  have read := number_fraction (α := α) negative ((Nat.toDigits 10 n).drop k) whole
    (by simp only [ne_eq, List.drop_eq_nil_iff]; omega)
    (fun c hc => isDigit_of_mem_toDigits (List.mem_of_mem_drop hc)) hrest
  rw [ofDigits, List.take_append_drop, digitsValue_toDigits, power] at read
  exact read

theorem number_positional {n : Nat} {point : Int} (hpoint : n = 0 → point = 1)
    (hrest : NumberEnds rest) :
    number (α := α) negative (positional true (Nat.toDigits 10 n) point ++ rest) =
      .ok (.real (DecimalText.ofDecimal
        (normalize (.finite negative n (point - (Nat.toDigits 10 n).length)))), rest) := by
  rw [positional]
  split
  · next le =>
    have power : point - (Nat.toDigits 10 n).length =
        -((Nat.toDigits 10 n).length + (-point).toNat : Nat) := by omega
    rw [power, ← number_leading negative _ hrest]
    simp
  · next lt =>
    split
    · next le =>
      have power : point - (Nat.toDigits 10 n).length =
          (point.toNat - (Nat.toDigits 10 n).length : Nat) := by omega
      rw [power, ← number_trailing negative _ (fun hn => by simp [hpoint hn, hn]) hrest]
      simp
    · next ge =>
      have power : point - (Nat.toDigits 10 n).length =
          (point.toNat : Int) - (Nat.toDigits 10 n).length := by omega
      rw [power, ← number_within negative (by omega) (by omega) hrest]
      simp

theorem number_scientific {n : Nat} (power : Int) (hrest : NumberEnds rest) :
    number (α := α) negative (scientific (Nat.toDigits 10 n) power ++ rest) =
      .ok (.real (DecimalText.ofDecimal
        (normalize (.finite negative n (power + 1 - (Nat.toDigits 10 n).length)))), rest) := by
  have digits := isWhole_toDigits n
  have value := digitsValue_toDigits n
  obtain ⟨c, ds, eq, -⟩ := exists_toDigits_eq_cons n
  rw [eq] at digits value ⊢
  cases ds with
  | nil =>
    have read := number_exponent (α := α) negative digits power hrest
    rw [ofDigits, List.append_nil, value] at read
    simpa [scientific] using read
  | cons d ds =>
    have whole : IsWhole [c] := by
      refine ⟨fun x hx => digits.digits x ?_, by simp, fun h => ?_⟩
      · rw [List.mem_singleton] at hx
        simp [hx]
      · simpa using h
    have read := number_fraction_exponent (α := α) negative (d :: ds) whole (by simp)
      (fun x hx => digits.digits x (List.mem_cons_of_mem _ hx)) power hrest
    have split : power + 1 - ((c :: d :: ds).length : Int) = power - ((d :: ds).length : Int) := by
      simp only [List.length_cons]
      omega
    rw [ofDigits, show [c] ++ d :: ds = c :: d :: ds from rfl, value, ← split] at read
    simpa [scientific] using read

/-- The text of a decimal, its sign apart, reads back as the decimal. -/
theorem number_magnitudeChars {n : Nat} {exponent : Int} (h : n = 0 → exponent = 0)
    (hrest : NumberEnds rest) :
    number (α := α) negative (magnitudeChars numberLayout n exponent ++ rest) =
      .ok (.real (DecimalText.ofDecimal (normalize (.finite negative n exponent))), rest) := by
  simp only [magnitudeChars]
  split
  · have power : (Nat.toDigits 10 n).length + exponent - (Nat.toDigits 10 n).length = exponent := by
      omega
    rw [show numberLayout.pointZero = true from rfl, number_positional negative _ hrest, power]
    intro hn
    rw [hn, h hn]
    rfl
  · have power : (Nat.toDigits 10 n).length + exponent - 1 + 1 - (Nat.toDigits 10 n).length =
        exponent := by omega
    rw [number_scientific negative _ hrest, power]

end LowThrust.Json
