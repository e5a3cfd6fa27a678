import LowThrust.Proofs.Json.Tokens

/-!
Reading what has been written: a document comes back, its members in the order in which they were
written.
-/

namespace LowThrust.Json

open Decimal

variable {α : Type}

/-! ### The order of members -/

/-- Members in the order in which they are written. -/
def Style.order {β : Type} (st : Style) (members : List (List Nat × β)) :
    List (List Nat × β) :=
  if st.sortKeys then sortMembers members else members

theorem Style.order_map {β γ : Type} (st : Style) (f : β → γ) (members : List (List Nat × β)) :
    st.order (members.map fun m => (m.1, f m.2)) =
      (st.order members).map fun m => (m.1, f m.2) := by
  rw [order, order]
  split
  · rw [sortMembers, sortMembers]
    symm
    apply List.map_mergeSort
    intro _ _ _ _
    rfl
  · rfl

theorem Style.order_perm {β : Type} (st : Style) (members : List (List Nat × β)) :
    (st.order members).Perm members := by
  rw [order]
  split
  · exact List.mergeSort_perm _ _
  · exact List.Perm.refl _

mutual

/-- A document whose objects have their members in the order in which they are written. -/
def arranged (st : Style) : Json α → Json α
  | .null => .null
  | .bool b => .bool b
  | .int n => .int n
  | .real x => .real x
  | .str s => .str s
  | .arr items => .arr (arrangedItems st items)
  | .obj members => .obj (st.order (arrangedMembers st members))

def arrangedItems (st : Style) : List (Json α) → List (Json α)
  | [] => []
  | item :: items => item.arranged st :: arrangedItems st items

def arrangedMembers (st : Style) : List (List Nat × Json α) → List (List Nat × Json α)
  | [] => []
  | (key, value) :: members => (key, value.arranged st) :: arrangedMembers st members

end

theorem arrangedItems_eq_map (st : Style) (items : List (Json α)) :
    arrangedItems st items = items.map (arranged st) := by
  induction items with
  | nil => rfl
  | cons item items ih => rw [arrangedItems, ih, List.map_cons]

theorem arrangedMembers_eq_map (st : Style) (members : List (List Nat × Json α)) :
    arrangedMembers st members = members.map fun m => (m.1, m.2.arranged st) := by
  induction members with
  | nil => rfl
  | cons m members ih => rw [arrangedMembers, ih, List.map_cons]

theorem arranged_obj (st : Style) (ms : List (List Nat × Json α)) :
    (obj ms).arranged st = obj ((st.order ms).map fun m => (m.1, m.2.arranged st)) := by
  rw [arranged, arrangedMembers_eq_map, Style.order_map]

/-- Documents that are read back: plain texts, keys that differ, integers not too long. -/
inductive Readable : Json α → Prop where
  | null : Readable .null
  | bool (b : Bool) : Readable (.bool b)
  | int (n : Int) (short : (Nat.toDigits 10 n.natAbs).length ≤ integerDigits) : Readable (.int n)
  | real (x : α) : Readable (.real x)
  | str (s : List Nat) (plain : IsPlain s) : Readable (.str s)
  | arr (items : List (Json α)) (readable : ∀ j ∈ items, Readable j) : Readable (.arr items)
  | obj (members : List (List Nat × Json α)) (plain : ∀ m ∈ members, IsPlain m.1)
      (distinct : (members.map Prod.fst).Nodup) (readable : ∀ m ∈ members, Readable m.2) :
      Readable (.obj members)

/-! ### Collected members -/

theorem insert_of_not_mem {members : List (List Nat × Json α)} {key : List Nat} (value : Json α)
    (h : key ∉ members.map Prod.fst) : insert members key value = members ++ [(key, value)] := by
  induction members with
  | nil => rfl
  | cons m members ih =>
    simp only [List.map_cons, List.mem_cons, not_or] at h
    rw [insert, if_neg (Ne.symm h.1), ih h.2, List.cons_append]

theorem collect_of_nodup {members : List (List Nat × Json α)}
    (h : (members.map Prod.fst).Nodup) : collect members = members := by
  have collected : ∀ before : List (List Nat × Json α),
      ((before ++ members).map Prod.fst).Nodup →
        members.foldl (fun ms m => insert ms m.1 m.2) before = before ++ members := by
    clear h
    induction members with
    | nil => simp
    | cons m members ih =>
      obtain ⟨key, value⟩ := m
      intro before h
      have fresh : key ∉ before.map Prod.fst := by
        intro mem
        rw [List.map_append, List.nodup_append] at h
        exact h.2.2 _ mem _ (by simp) rfl
      simp only [List.foldl_cons]
      rw [insert_of_not_mem _ fresh, ih]
      · simp
      · simpa using h
  exact collected [] h

/-! ### Values -/

variable [DecimalText α]

theorem itemsChars_eq_map (st : Style) (level : Nat) (items : List (Json α)) :
    itemsChars st level items = items.map (chars st level) := by
  induction items with
  | nil => rfl
  | cons item items ih => rw [itemsChars, ih, List.map_cons]

theorem membersChars_eq_map (st : Style) (level : Nat) (members : List (List Nat × Json α)) :
    membersChars st level members = members.map fun m => (m.1, m.2.chars st level) := by
  induction members with
  | nil => rfl
  | cons m members ih => rw [membersChars, ih, List.map_cons]

/-- The texts of items, apart from each other. -/
def Style.joined (st : Style) (level : Nat) (texts : List (List Char)) : List Char :=
  (texts.intersperse (st.separator level)).flatten

theorem Style.bracket_of_ne_nil (st : Style) (level : Nat) (opening closing : Char)
    {texts : List (List Char)} (h : texts ≠ []) (rest : List Char) :
    st.bracket level opening closing texts ++ rest =
      opening :: (st.newline (level + 1) ++ (st.joined (level + 1) texts ++
        (st.newline level ++ closing :: rest))) := by
  rw [bracket, if_neg (by simpa using h), joined]
  simp

/-- The text of a value begins with what is neither blank nor the end of an array. -/
theorem exists_chars_eq_cons (st : Style) (level : Nat) (j : Json α) :
    ∃ c cs, j.chars st level = c :: cs ∧ isBlank c = false ∧ c ≠ ']' := by
  have digit : ∀ {c : Char}, c.isDigit → isBlank c = false ∧ c ≠ ']' := by
    intro c h
    refine ⟨isBlank_eq_false_of_isDigit h, ?_⟩
    rintro rfl
    exact absurd h (by decide)
  have signed : ∀ (negative : Bool) {c : Char} {cs : List Char}, c.isDigit →
      ∃ d ds, signChars negative ++ c :: cs = d :: ds ∧ isBlank d = false ∧ d ≠ ']' := by
    rintro (_ | _) c cs h
    · exact ⟨c, cs, rfl, digit h⟩
    · exact ⟨'-', c :: cs, rfl, by decide⟩
  have bracketed : ∀ (opening closing : Char) (texts : List (List Char)),
      ∃ ds, st.bracket level opening closing texts = opening :: ds := by
    intro opening closing texts
    rw [Style.bracket]
    split
    · exact ⟨_, rfl⟩
    · exact ⟨_, rfl⟩
  cases j with
  | null => exact ⟨'n', _, rfl, by decide⟩
  | bool b => cases b <;> exact ⟨_, _, rfl, by decide⟩
  | int n =>
    rw [chars, intChars]
    obtain ⟨c, cs, eq, digit⟩ := exists_toDigits_eq_cons n.natAbs
    rw [eq]
    exact signed _ digit
  | real x =>
    rw [chars]
    cases DecimalText.shortest x with
    | nan => exact ⟨'N', _, rfl, by decide⟩
    | infinite negative => cases negative <;> exact ⟨_, _, rfl, by decide⟩
    | finite negative n exponent =>
      obtain ⟨c, cs, eq, hc⟩ := exists_magnitudeChars_eq_cons numberLayout n exponent
      rw [Decimal.chars, eq]
      exact signed negative hc
  | str s => exact ⟨'"', _, rfl, by decide⟩
  | arr items =>
    obtain ⟨ds, eq⟩ := bracketed '[' ']' (itemsChars st (level + 1) items)
    exact ⟨'[', ds, by rw [chars, eq], by decide⟩
  | obj members =>
    rw [chars]
    obtain ⟨ds, eq⟩ := bracketed '\x7b' '\x7d' _
    exact ⟨'\x7b', ds, eq, by decide⟩

/-- The text of the value is read back, given fuel for its length. -/
def ReadsBack (st : Style) (j : Json α) : Prop :=
  ∀ level fuel rest, (j.chars st level).length ≤ fuel → NumberEnds rest →
    value fuel (j.chars st level ++ rest) = .ok (j.arranged st, rest)

theorem skipBlanks_chars (st : Style) (level : Nat) (j : Json α) (rest : List Char) :
    skipBlanks (j.chars st level ++ rest) = j.chars st level ++ rest := by
  obtain ⟨c, cs, eq, blank, -⟩ := exists_chars_eq_cons st level j
  rw [eq, List.cons_append, skipBlanks_cons blank]

theorem Style.joined_cons_cons (st : Style) (level : Nat) (text next : List Char)
    (texts : List (List Char)) :
    st.joined level (text :: next :: texts) =
      text ++ (st.separator level ++ st.joined level (next :: texts)) := by
  simp [joined]

theorem exists_joined_eq_cons (st : Style) (level : Nat) {js : List (Json α)} (hne : js ≠ []) :
    ∃ c cs, st.joined level (js.map (chars st level)) = c :: cs ∧ isBlank c = false ∧ c ≠ ']' := by
  obtain ⟨j, js, rfl⟩ := List.exists_cons_of_ne_nil hne
  obtain ⟨c, cs, eq, hc⟩ := exists_chars_eq_cons st level j
  cases js with
  | nil => exact ⟨c, cs, by simp [Style.joined, eq], hc⟩
  | cons k js =>
    rw [List.map_cons, List.map_cons, Style.joined_cons_cons, eq]
    exact ⟨c, _, rfl, hc⟩

theorem skipBlanks_joined_chars (st : Style) (level : Nat) {js : List (Json α)} (hne : js ≠ [])
    (rest : List Char) :
    skipBlanks (st.joined level (js.map (chars st level)) ++ rest) =
      st.joined level (js.map (chars st level)) ++ rest := by
  obtain ⟨c, cs, eq, blank, -⟩ := exists_joined_eq_cons st level hne
  rw [eq, List.cons_append, skipBlanks_cons blank]

theorem items_joined {st : Style} {level fuel : Nat} {js : List (Json α)} (hne : js ≠ [])
    (h : ∀ j ∈ js, j.ReadsBack st) {bs : List Char} (hbs : ∀ c ∈ bs, isBlank c)
    (rest : List Char) (hf : (st.joined level (js.map (chars st level))).length < fuel) :
    items fuel (st.joined level (js.map (chars st level)) ++ (bs ++ ']' :: rest)) =
      .ok (js.map (arranged st), rest) := by
  induction js generalizing fuel with
  | nil => contradiction
  | cons j js ih =>
    obtain ⟨fuel, rfl⟩ : ∃ k, fuel = k + 1 := ⟨fuel - 1, by omega⟩
    have first := h j (by simp)
    cases js with
    | nil =>
      have ends := numberEnds_closing hbs (Or.inl rfl) rest
      simp only [Style.joined, List.map_cons, List.map_nil, List.intersperse_singleton,
        List.flatten_cons, List.flatten_nil, List.append_nil] at hf ⊢
      rw [items, first level fuel _ (by omega) ends]
      simp only [bind, Except.bind, skipBlanks_append hbs, skipBlanks_cons (c := ']') rfl]
      rfl
    | cons k js =>
      obtain ⟨gap, hgap, sep⟩ := st.exists_separator_eq level
      rw [List.map_cons, List.map_cons, Style.joined_cons_cons, sep] at hf ⊢
      simp only [List.length_append, List.length_cons] at hf
      rw [← List.map_cons] at hf ⊢
      have more := ih (by simp) (fun j hj => h j (by simp [hj])) (show _ < fuel by omega)
      simp only [List.append_assoc, List.cons_append]
      rw [items, first level fuel _ (by omega) (numberEnds_comma _)]
      simp only [bind, Except.bind, skipBlanks_cons (c := ',') rfl, skipBlanks_append hgap]
      rw [skipBlanks_joined_chars st level (by simp), more]
      rfl

def memberChars (st : Style) (level : Nat) (m : List Nat × Json α) : List Char :=
  quoted m.1 ++ ':' :: ' ' :: m.2.chars st level

theorem memberChars_append (st : Style) (level : Nat) (m : List Nat × Json α)
    (rest : List Char) :
    memberChars st level m ++ rest =
      '"' :: (m.1.flatMap escape ++ '"' :: ':' :: ' ' :: (m.2.chars st level ++ rest)) := by
  simp [memberChars, quoted]

theorem length_chars_lt_memberChars (st : Style) (level : Nat) (m : List Nat × Json α) :
    (m.2.chars st level).length < (memberChars st level m).length := by
  simp only [memberChars, List.length_append, List.length_cons]
  omega

section Member

variable {st : Style} {level fuel : Nat} {m : List Nat × Json α} {tail rest : List Char}

theorem members_last (plain : IsPlain m.1) (h : m.2.ReadsBack st)
    (hf : (memberChars st level m).length ≤ fuel + 1) (ends : NumberEnds tail)
    (closing : skipBlanks tail = '\x7d' :: rest) :
    members (fuel + 1) (memberChars st level m ++ tail) =
      .ok ([(m.1, m.2.arranged st)], rest) := by
  have lt := length_chars_lt_memberChars st level m
  have space : ∀ cs, skipBlanks (' ' :: cs) = skipBlanks cs := fun _ => rfl
  rw [memberChars_append, members, string?_escapes plain]
  simp only [bind, Except.bind, skipBlanks_cons (c := ':') rfl, space, skipBlanks_chars,
    h level fuel tail (by omega) ends, closing]
  rfl

theorem members_next (plain : IsPlain m.1) (h : m.2.ReadsBack st)
    (hf : (memberChars st level m).length ≤ fuel + 1) (ends : NumberEnds tail)
    (comma : skipBlanks tail = ',' :: rest) {ms : List (List Nat × Json α)} {after : List Char}
    (more : members fuel (skipBlanks rest) = .ok (ms, after)) :
    members (fuel + 1) (memberChars st level m ++ tail) =
      .ok ((m.1, m.2.arranged st) :: ms, after) := by
  have lt := length_chars_lt_memberChars st level m
  have space : ∀ cs, skipBlanks (' ' :: cs) = skipBlanks cs := fun _ => rfl
  rw [memberChars_append, members, string?_escapes plain]
  simp only [bind, Except.bind, skipBlanks_cons (c := ':') rfl, space, skipBlanks_chars,
    h level fuel tail (by omega) ends, comma, more]
  rfl

end Member

theorem skipBlanks_joined_memberChars (st : Style) (level : Nat) (m : List Nat × Json α)
    (ms : List (List Nat × Json α)) (rest : List Char) :
    skipBlanks (st.joined level ((m :: ms).map (memberChars st level)) ++ rest) =
      st.joined level ((m :: ms).map (memberChars st level)) ++ rest := by
  cases ms <;> rfl

/-- Members are read as they are written, one after the other. -/
theorem members_joined {st : Style} {level fuel : Nat} {ms : List (List Nat × Json α)}
    (hne : ms ≠ []) (plain : ∀ m ∈ ms, IsPlain m.1) (h : ∀ m ∈ ms, m.2.ReadsBack st)
    {bs : List Char} (hbs : ∀ c ∈ bs, isBlank c) (rest : List Char)
    (hf : (st.joined level (ms.map (memberChars st level))).length < fuel) :
    members fuel (st.joined level (ms.map (memberChars st level)) ++ (bs ++ '\x7d' :: rest)) =
      .ok (ms.map fun m => (m.1, m.2.arranged st), rest) := by
  induction ms generalizing fuel with
  | nil => contradiction
  | cons m ms ih =>
    obtain ⟨fuel, rfl⟩ : ∃ k, fuel = k + 1 := ⟨fuel - 1, by omega⟩
    have key := plain m (by simp)
    have first := h m (by simp)
    cases ms with
    | nil =>
      have ends := numberEnds_closing hbs (Or.inr rfl) rest
      simp only [Style.joined, List.map_cons, List.map_nil, List.intersperse_singleton,
        List.flatten_cons, List.flatten_nil, List.append_nil] at hf ⊢
      apply members_last key first (by omega) ends
      rw [skipBlanks_append hbs, skipBlanks_cons rfl]
    | cons n ms =>
      obtain ⟨gap, hgap, sep⟩ := st.exists_separator_eq level
      rw [List.map_cons, List.map_cons, Style.joined_cons_cons, sep] at hf ⊢
      simp only [List.length_append, List.length_cons] at hf
      rw [← List.map_cons] at hf ⊢
      have more := ih (by simp) (fun m hm => plain m (by simp [hm]))
        (fun m hm => h m (by simp [hm])) (show _ < fuel by omega)
      simp only [List.append_assoc, List.cons_append]
      apply members_next key first (by omega) (numberEnds_comma _) (skipBlanks_cons rfl _)
      rw [skipBlanks_append hgap, skipBlanks_joined_memberChars, more]

/-! ### Documents -/

theorem value_of_isDigit {fuel : Nat} {c : Char} (h : c.isDigit) (cs : List Char) :
    value (α := α) (fuel + 1) (c :: cs) = number false (c :: cs) := by
  have other : ∀ d : Char, d.isDigit = false → ∀ ds, c :: cs ≠ d :: ds := by
    intro d hd ds eq
    exact absurd h (by simp [(List.cons.inj eq).1, hd])
  rw [value]
  all_goals
    intro rest eq
    exact absurd eq (other _ (by decide) _)

theorem value_minus {fuel : Nat} {c : Char} (h : c.isDigit) (cs : List Char) :
    value (α := α) (fuel + 1) ('-' :: c :: cs) = number true (c :: cs) := by
  rw [value]
  rintro rest eq
  exact absurd h (by simp [(List.cons.inj eq).1])

theorem exists_fuel_eq_succ {st : Style} {level fuel : Nat} {j : Json α}
    (h : (j.chars st level).length ≤ fuel) : ∃ k, fuel = k + 1 := by
  obtain ⟨c, cs, eq, -⟩ := exists_chars_eq_cons st level j
  rw [eq, List.length_cons] at h
  exact ⟨fuel - 1, by omega⟩

/-- A sign leads to the number behind it. -/
theorem value_signed {fuel : Nat} (negative : Bool) {c : Char} (h : c.isDigit) (cs : List Char) :
    value (α := α) (fuel + 1) (signChars negative ++ c :: cs) = number negative (c :: cs) := by
  cases negative with
  | false => exact value_of_isDigit h cs
  | true => exact value_minus h cs

theorem readsBack_int (st : Style) {n : Int}
    (short : (Nat.toDigits 10 n.natAbs).length ≤ integerDigits) : (int n : Json α).ReadsBack st := by
  intro level fuel rest hf hrest
  have read := number_whole (α := α) (decide (n < 0)) (isWhole_toDigits n.natAbs) short hrest
  obtain ⟨fuel, rfl⟩ := exists_fuel_eq_succ hf
  obtain ⟨c, cs, eq, first⟩ := exists_toDigits_eq_cons n.natAbs
  rw [chars, intChars, List.append_assoc, eq, List.cons_append, value_signed _ first,
    ← List.cons_append, ← eq, read, digitsValue_toDigits, signed_natAbs, arranged]

theorem readsBack_real [LawfulDecimalText α] (st : Style) (x : α) : (real x).ReadsBack st := by
  intro level fuel rest hf hrest
  have normal := LawfulDecimalText.normalize_shortest x
  have back := LawfulDecimalText.ofDecimal_shortest x
  obtain ⟨fuel, rfl⟩ := exists_fuel_eq_succ hf
  rw [chars, arranged]
  cases h : DecimalText.shortest x with
  | nan =>
    rw [h] at back
    rw [← back]
    rfl
  | infinite negative =>
    rw [h] at back
    rw [← back]
    cases negative <;> rfl
  | finite negative n exponent =>
    rw [h] at back normal
    have zero : n = 0 → exponent = 0 := by
      rintro rfl
      simp only [Decimal.normalize, dropZeros_zero, Decimal.finite.injEq] at normal
      exact normal.2.2.symm
    obtain ⟨c, cs, eq, first⟩ := exists_magnitudeChars_eq_cons numberLayout n exponent
    rw [Decimal.chars, List.append_assoc, eq, List.cons_append, value_signed _ first,
      ← List.cons_append, ← eq, number_magnitudeChars negative zero hrest, normal, back]

theorem value_bracket {fuel : Nat} {cs : List Char} {c : Char} {tail : List Char}
    (h : skipBlanks cs = c :: tail) (hc : c ≠ ']') :
    value (α := α) (fuel + 1) ('[' :: cs) = do
      let (js, rest) ← items fuel (c :: tail)
      return (.arr js, rest) := by
  rw [value, h]
  split
  · next eq => exact absurd (List.cons.inj eq).1 hc
  · rfl

theorem readsBack_arr {st : Style} {js : List (Json α)} (h : ∀ j ∈ js, j.ReadsBack st) :
    (arr js).ReadsBack st := by
  intro level fuel rest hf hrest
  obtain ⟨fuel, rfl⟩ := exists_fuel_eq_succ hf
  rw [chars, itemsChars_eq_map] at hf ⊢
  rw [arranged, arrangedItems_eq_map]
  by_cases hne : js = []
  · subst hne
    rfl
  · have texts : js.map (chars st (level + 1)) ≠ [] := by simpa using hne
    have len := congrArg List.length (st.bracket_of_ne_nil level '[' ']' texts [])
    simp only [List.append_nil, List.length_cons, List.length_append, List.length_nil] at len
    have blanks : ∀ k, ∀ c ∈ st.newline k, isBlank c := fun k c => Style.isBlank_of_mem_newline
    obtain ⟨c, cs, eq, -, hc⟩ := exists_joined_eq_cons st (level + 1) hne
    have skipped := skipBlanks_joined_chars st (level + 1) hne
    have read := items_joined hne h (blanks level) rest
      (show (st.joined (level + 1) _).length < fuel by omega)
    rw [eq] at read skipped
    rw [Style.bracket_of_ne_nil _ _ _ _ texts, value_bracket _ hc, ← List.cons_append, read]
    · rfl
    · rw [skipBlanks_append (blanks _), eq, skipped]
      rfl

theorem value_brace {fuel : Nat} {cs : List Char} {c : Char} {tail : List Char}
    (h : skipBlanks cs = c :: tail) (hc : c ≠ '\x7d') :
    value (α := α) (fuel + 1) ('\x7b' :: cs) = do
      let (ms, rest) ← members fuel (c :: tail)
      return (.obj (collect ms), rest) := by
  rw [value, h]
  split
  · next eq => exact absurd (List.cons.inj eq).1 hc
  · rfl

theorem chars_obj (st : Style) (level : Nat) (ms : List (List Nat × Json α)) :
    (obj ms).chars st level =
      st.bracket level '\x7b' '\x7d' ((st.order ms).map (memberChars st (level + 1))) := by
  rw [chars, membersChars_eq_map]
  change st.bracket level _ _
    ((st.order (ms.map fun m => (m.1, m.2.chars st (level + 1)))).map _) = _
  rw [Style.order_map, List.map_map]
  rfl

/-- Sorting moves members about, so it keeps what each of them and their keys satisfy. -/
theorem readsBack_obj {st : Style} {ms : List (List Nat × Json α)}
    (plain : ∀ m ∈ ms, IsPlain m.1) (distinct : (ms.map Prod.fst).Nodup)
    (h : ∀ m ∈ ms, m.2.ReadsBack st) : (obj ms).ReadsBack st := by
  intro level fuel rest hf hrest
  obtain ⟨fuel, rfl⟩ := exists_fuel_eq_succ hf
  have perm := st.order_perm ms
  replace plain : ∀ m ∈ st.order ms, IsPlain m.1 := fun m hm => plain m (perm.mem_iff.mp hm)
  replace h : ∀ m ∈ st.order ms, m.2.ReadsBack st := fun m hm => h m (perm.mem_iff.mp hm)
  replace distinct : (((st.order ms).map fun m => (m.1, m.2.arranged st)).map Prod.fst).Nodup := by
    rw [List.map_map]
    exact (perm.map Prod.fst).nodup_iff.mpr distinct
  rw [chars_obj] at hf ⊢
  rw [arranged_obj]
  cases hms : st.order ms with
  | nil => rfl
  | cons m ms =>
    rw [hms] at hf plain h distinct
    have texts : (m :: ms).map (memberChars st (level + 1)) ≠ [] := by simp
    have len := congrArg List.length (st.bracket_of_ne_nil level '\x7b' '\x7d' texts [])
    simp only [List.append_nil, List.length_cons, List.length_append, List.length_nil] at len
    have blanks : ∀ k, ∀ c ∈ st.newline k, isBlank c := fun k c => Style.isBlank_of_mem_newline
    have first : ∃ cs, st.joined (level + 1) ((m :: ms).map (memberChars st (level + 1))) =
        '"' :: cs := by cases ms <;> exact ⟨_, rfl⟩
    obtain ⟨cs, eq⟩ := first
    have read := members_joined (by simp) plain h (blanks level) rest
      (show (st.joined (level + 1) _).length < fuel by omega)
    rw [eq] at read
    rw [Style.bracket_of_ne_nil _ _ _ _ texts, value_brace _ (by decide : '"' ≠ '\x7d'),
      ← List.cons_append, read]
    · simp only [bind, Except.bind, collect_of_nodup distinct]
      rfl
    · rw [skipBlanks_append (blanks _), eq]
      rfl

/-- A document reads back, in whichever style it has been written. -/
theorem Readable.readsBack [LawfulDecimalText α] (st : Style) {j : Json α} (h : j.Readable) :
    j.ReadsBack st := by
  induction h with
  | null =>
    intro level fuel rest hf hrest
    obtain ⟨fuel, rfl⟩ := exists_fuel_eq_succ hf
    rfl
  | bool b =>
    intro level fuel rest hf hrest
    obtain ⟨fuel, rfl⟩ := exists_fuel_eq_succ hf
    cases b <;> rfl
  | int n short => exact readsBack_int st short
  | real x => exact readsBack_real st x
  | str s plain =>
    intro level fuel rest hf hrest
    obtain ⟨fuel, rfl⟩ := exists_fuel_eq_succ hf
    rw [chars, quoted, List.cons_append, List.cons_append, List.append_assoc, value,
      List.singleton_append, string?_escapes plain]
    rfl
  | arr items readable ih => exact readsBack_arr ih
  | obj members plain distinct readable ih => exact readsBack_obj plain distinct ih

theorem parse_print [LawfulDecimalText α] (st : Style) {j : Json α} (h : j.Readable) :
    parse (j.print st) = .ok (j.arranged st) := by
  have start := skipBlanks_chars st 0 j []
  have read := h.readsBack st 0 (j.print st).length.succ [] (Nat.le_succ _) numberEnds_nil
  rw [List.append_nil] at start read
  rw [parse, print, start]
  change (value (j.print st).length.succ (j.chars st 0) >>= _) = _
  rw [read]
  rfl

end LowThrust.Json
