import LowThrust.Proofs.Json.Number

/-!
What stands between the brackets of a document: strings, numbers and the blanks around them.
-/

namespace LowThrust.Json

open Decimal

/-! ### Blanks -/

theorem isBlank_eq_false_of_isDigit {c : Char} (h : c.isDigit) : isBlank c = false := by
  by_contra blank
  rw [Bool.not_eq_false] at blank
  simp only [isBlank, Bool.or_eq_true, decide_eq_true_eq] at blank
  obtain ((rfl | rfl) | rfl) | rfl := blank <;> contradiction

theorem skipBlanks_append {bs : List Char} (h : ∀ c ∈ bs, isBlank c) (cs : List Char) :
    skipBlanks (bs ++ cs) = skipBlanks cs :=
  List.dropWhile_append_of_pos h

theorem skipBlanks_cons {c : Char} (h : isBlank c = false) (cs : List Char) :
    skipBlanks (c :: cs) = c :: cs := by
  rw [skipBlanks, List.dropWhile_cons, if_neg (by simp [h])]

theorem Style.isBlank_of_mem_newline {st : Style} {level : Nat} {c : Char}
    (h : c ∈ st.newline level) : isBlank c := by
  rw [newline] at h
  split at h
  · exact absurd h List.not_mem_nil
  · rw [List.mem_cons] at h
    obtain rfl | h := h
    · rfl
    · rw [List.eq_of_mem_replicate h]
      rfl

/-- Items are a comma and blanks apart. -/
theorem Style.exists_separator_eq (st : Style) (level : Nat) :
    ∃ bs, (∀ c ∈ bs, isBlank c) ∧ st.separator level = ',' :: bs := by
  rw [separator]
  split
  · exact ⟨[' '], by simp [isBlank], rfl⟩
  · exact ⟨st.newline level, fun _ => isBlank_of_mem_newline, rfl⟩

theorem numberEnds_nil : NumberEnds [] := by
  rintro c ⟨⟩

theorem numberEnds_comma (cs : List Char) : NumberEnds (',' :: cs) := by
  rintro c ⟨⟩
  decide

theorem numberEnds_closing {bs : List Char} (h : ∀ c ∈ bs, isBlank c) {closing : Char}
    (hc : closing = ']' ∨ closing = '\x7d') (cs : List Char) :
    NumberEnds (bs ++ closing :: cs) := by
  cases bs with
  | nil =>
    rintro c ⟨⟩
    obtain rfl | rfl := hc <;> decide
  | cons b bs =>
    rintro c ⟨⟩
    have blank := h b (by simp)
    simp only [isBlank, Bool.or_eq_true, decide_eq_true_eq] at blank
    obtain ((rfl | rfl) | rfl) | rfl := blank <;> decide

/-! ### Strings -/

/-- Texts of printable characters of ASCII. -/
def IsPlain (s : List Nat) : Prop := ∀ c ∈ s, 0x20 ≤ c ∧ c ≤ 0x7E

instance : DecidablePred IsPlain := fun s =>
  inferInstanceAs (Decidable (∀ c ∈ s, 0x20 ≤ c ∧ c ≤ 0x7E))

theorem stringUnits?_escape {c : Nat} (h : 0x20 ≤ c ∧ c ≤ 0x7E) (cs : List Char) :
    stringUnits? (escape c ++ cs) =
      (stringUnits? cs).map fun (units, rest) => (c :: units, rest) := by
  by_cases quote : c = 0x22
  · subst quote
    cases h : stringUnits? cs <;> simp [escape, stringUnits?, escaped?, h]
  · by_cases backslash : c = 0x5C
    · subst backslash
      cases h : stringUnits? cs <;> simp [escape, stringUnits?, escaped?, h]
    · have same : escape c = [Char.ofNat c] := by
        rw [escape, if_neg quote, if_neg backslash, if_neg (by omega), if_neg (by omega),
          if_neg (by omega), if_neg (by omega), if_neg (by omega), if_pos h]
      have point : (Char.ofNat c).toNat = c := by
        rw [Char.ofNat, dif_pos (Or.inl (by omega))]
        rfl
      have head : ∀ d : Char, d.toNat ≠ c → Char.ofNat c ≠ d := by
        rintro d ne rfl
        exact ne point
      rw [same, List.singleton_append, stringUnits?, point, if_neg (by omega)]
      · cases stringUnits? cs <;> rfl
      · exact head '"' (Ne.symm quote)
      · intro a b d e rest eq
        exact absurd eq (head '\\' (Ne.symm backslash))
      · intro e rest eq
        exact absurd eq (head '\\' (Ne.symm backslash))

theorem stringUnits?_escapes {s : List Nat} (h : IsPlain s) (rest : List Char) :
    stringUnits? (s.flatMap escape ++ '"' :: rest) = some (s, rest) := by
  induction s with
  | nil => rfl
  | cons c s ih =>
    rw [List.flatMap_cons, List.append_assoc, stringUnits?_escape (h c (by simp)),
      ih (fun d hd => h d (by simp [hd]))]
    rfl

theorem joinSurrogates_of_isPlain {s : List Nat} (h : IsPlain s) : joinSurrogates s = s := by
  fun_induction joinSurrogates s with
  | case1 high low rest pair ih =>
    have := h high (by simp)
    omega
  | case2 high low rest pair ih => rw [ih (fun d hd => h d (by simp_all))]
  | case3 => rfl

theorem string?_escapes {s : List Nat} (h : IsPlain s) (rest : List Char) :
    string? (s.flatMap escape ++ '"' :: rest) = .ok (s, rest) := by
  simp only [string?, stringUnits?_escapes h, joinSurrogates_of_isPlain h]

/-! ### Numbers -/

theorem exists_magnitudeChars_eq_cons (l : Layout) (n : Nat) (exponent : Int) :
    ∃ c cs, magnitudeChars l n exponent = c :: cs ∧ c.isDigit := by
  obtain ⟨d, ds, eq, digit⟩ := exists_toDigits_eq_cons n
  simp only [magnitudeChars, eq]
  split
  · rw [positional]
    split
    · exact ⟨'0', _, rfl, by decide⟩
    · split
      · exact ⟨d, _, rfl, digit⟩
      · next pos _ =>
        obtain ⟨k, hk⟩ : ∃ k, ((d :: ds).length + exponent).toNat = k + 1 :=
          ⟨((d :: ds).length + exponent).toNat - 1, by omega⟩
        rw [hk]
        exact ⟨d, _, rfl, digit⟩
  · exact ⟨d, _, rfl, digit⟩

end LowThrust.Json
