import PortNet.Json.Document
import PortNet.Proofs.Json.Numeral
import PortNet.Proofs.Json.Quotation

namespace PortNet.Json

/-- A value with containers nested at most `depth` deep, with whole numbers only, and with distinct
keys in every object. -/
inductive Fits : Nat → Json → Prop
  | null {depth : Nat} : Fits depth .null
  | bool {depth : Nat} {value : Bool} : Fits depth (.bool value)
  | num {depth : Nat} {n : Number} : n.Whole → Fits depth (.num n)
  | str {depth : Nat} {value : String} : Fits depth (.str value)
  | arr {depth : Nat} {items : List Json} : (∀ x ∈ items, Fits depth x) →
      Fits (depth + 1) (.arr items)
  | obj {depth : Nat} {members : List (String × Json)} : (members.map Prod.fst).Nodup →
      (∀ m ∈ members, Fits depth m.2) → Fits (depth + 1) (.obj members)

/-- Breaks and gaps that a reader passes over. -/
structure Layout.Blank (layout : Layout) : Prop where
  lineBreak : ∀ depth, ∀ c ∈ layout.lineBreak depth, isBlank c = true
  colon : ∃ gap, layout.colon = ':' :: gap ∧ ∀ c ∈ gap, isBlank c = true

theorem Layout.blank_compact : Layout.compact.Blank where
  lineBreak _ _ hc := absurd hc List.not_mem_nil
  colon := ⟨[], rfl, fun _ hc => absurd hc List.not_mem_nil⟩

theorem Layout.blank_pretty : Layout.pretty.Blank where
  lineBreak depth c hc := by
    rcases List.mem_cons.mp hc with rfl | hc
    · rfl
    · rw [(List.mem_replicate.mp hc).2]
      rfl
  colon := ⟨[' '], rfl, List.forall_mem_singleton.mpr rfl⟩

variable {layout : Layout} {limit depth k : Nat} {blanks cs rest : List Char} {c : Char}
  {inner : Option (Reader × (String → Reader))} {item : Reader} {j x : Json} {xs : List Json}

theorem skipBlank_append (h : ∀ c ∈ blanks, isBlank c = true) (cs : List Char) :
    skipBlank (blanks ++ cs) = skipBlank cs :=
  List.dropWhile_append_of_pos h

theorem skipBlank_cons (h : isBlank c = false) (cs : List Char) : skipBlank (c :: cs) = c :: cs :=
  List.dropWhile_cons_of_neg (by simp [h])

theorem readWith_append (h : ∀ c ∈ blanks, isBlank c = true) (cs : List Char) :
    readWith limit inner (blanks ++ cs) = readWith limit inner cs := by
  rw [readWith, skipBlank_append h, readWith]

theorem exists_readWith (limit depth : Nat) :
    ∃ inner, readValue limit depth = readWith limit inner := by
  cases depth with
  | zero => exact ⟨_, rfl⟩
  | succ depth => exact ⟨_, rfl⟩

theorem readValue_append (h : ∀ c ∈ blanks, isBlank c = true) (cs : List Char) :
    readValue limit depth (blanks ++ cs) = readValue limit depth cs := by
  obtain ⟨inner, hinner⟩ := exists_readWith limit depth
  rw [hinner, readWith_append h]

/-- A text that starts like a value: with neither a blank nor a mark. -/
def StartsValue (cs : List Char) : Prop :=
  ∃ c rest, cs = c :: rest ∧ isBlank c = false ∧ c ≠ ']'

theorem StartsValue.append (h : StartsValue cs) (rest : List Char) : StartsValue (cs ++ rest) := by
  obtain ⟨c, cs, rfl, hblank, hc⟩ := h
  exact ⟨c, cs ++ rest, rfl, hblank, hc⟩

/-- Numbers start with a sign or a digit. -/
theorem head_writeNumber {n : Number} (hn : n.Whole) :
    ∃ c cs, writeNumber n = c :: cs ∧ (c = '-' ∨ c.isDigit = true) := by
  match n, hn with
  | .integer (.ofNat n), _ =>
    obtain ⟨c, cs, hcs⟩ := List.exists_cons_of_ne_nil (Nat.toDigits_ne_nil (n := n) (b := 10))
    exact ⟨c, cs, hcs, .inr (Numeral.isDigit_of_mem_toDigits (hcs ▸ List.mem_cons_self))⟩
  | .integer (.negSucc n), _ => exact ⟨_, _, rfl, .inl rfl⟩
  | .double _, rfl => exact ⟨_, _, rfl, .inl rfl⟩

theorem isBlank_of_isDigit (h : c.isDigit = true) : isBlank c = false := by
  simp only [isBlank, Bool.or_eq_false_iff, decide_eq_false_iff_not]
  refine ⟨⟨⟨?_, ?_⟩, ?_⟩, ?_⟩ <;> rintro rfl <;> exact absurd h (by decide)

theorem startsValue_write (h : Fits depth j) : StartsValue (write layout k j) := by
  cases h with
  | null => exact ⟨_, _, rfl, by decide, by decide⟩
  | @bool _ value => cases value <;> exact ⟨_, _, rfl, by decide, by decide⟩
  | str => exact ⟨_, _, rfl, by decide, by decide⟩
  | num hn =>
    obtain ⟨c, cs, hcs, hc⟩ := head_writeNumber hn
    refine ⟨c, cs, hcs, ?_⟩
    rcases hc with rfl | hdigit
    · decide
    · exact ⟨isBlank_of_isDigit hdigit, by rintro rfl; exact absurd hdigit (by decide)⟩
  | @arr _ items => cases items <;> exact ⟨_, _, rfl, by decide, by decide⟩
  | @obj _ members =>
    cases members with
    | nil => exact ⟨_, _, rfl, by decide, by decide⟩
    | cons m ms => exact ⟨_, _, rfl, by decide, by decide⟩

theorem readWith_number (hc : c = '-' ∨ c.isDigit = true) :
    readWith limit inner (c :: cs) = readNumber (c :: cs) := by
  have hblank : isBlank c = false := by
    rcases hc with rfl | hdigit
    · decide
    · exact isBlank_of_isDigit hdigit
  have hother : ∀ d : Char, d ≠ '-' → d.isDigit = false → c ≠ d := by
    rintro d hminus hdigit rfl
    rcases hc with hc | hc
    · exact hminus hc
    · rw [hdigit] at hc
      cases hc
  rw [readWith, skipBlank_cons hblank]
  simp only [hother 'n' (by decide) (by decide), hother 't' (by decide) (by decide),
    hother 'f' (by decide) (by decide), hother '"' (by decide) (by decide), hc, if_true, if_false]

theorem readNumber_write {n : Number} (hn : n.Whole) (hrest : ClosesNumber rest) :
    readNumber (writeNumber n ++ rest) = (.num n, rest) := by
  obtain ⟨numeral, hscan, hnumber⟩ := exists_scan_writeNumber hn hrest
  simp only [readNumber, hscan, hnumber, bind, Except.bind, readScalar]

theorem closesNumber_of_isBlank (h : isBlank c = true) : ClosesNumber (c :: cs) := by
  rintro d ⟨⟩
  refine ⟨?_, ?_, ?_, ?_⟩
  · by_contra hdigit
    rw [isBlank_of_isDigit (by simpa using hdigit)] at h
    cases h
  all_goals
    rintro rfl
    exact absurd h (by decide)

/-- A break before a mark that is no part of a number closes a number, be it empty or not. -/
theorem closesNumber_break (h : ∀ d ∈ blanks, isBlank d = true) (hc : ClosesNumber (c :: cs)) :
    ClosesNumber (blanks ++ c :: cs) := by
  cases blanks with
  | nil => exact hc
  | cons d blanks => exact closesNumber_of_isBlank (h d List.mem_cons_self)

theorem closesNumber_writeItems (hlayout : layout.Blank) (xs : List Json) (rest : List Char) :
    ClosesNumber (writeItems layout k xs ++ rest) := by
  cases xs with
  | nil =>
    rw [writeItems, List.append_assoc]
    exact closesNumber_break (hlayout.lineBreak k) (by rintro d ⟨⟩; decide)
  | cons x xs =>
    rintro d ⟨⟩
    decide

theorem closesNumber_writeMembers (hlayout : layout.Blank) (ms : List (String × Json))
    (rest : List Char) : ClosesNumber (writeMembers layout k ms ++ rest) := by
  cases ms with
  | nil =>
    rw [writeMembers, List.append_assoc]
    exact closesNumber_break (hlayout.lineBreak k) (by rintro d ⟨⟩; decide)
  | cons m ms =>
    rintro d ⟨⟩
    decide

theorem readItems_close (h : ∀ d ∈ blanks, isBlank d = true) (first : Bool) (rest : List Char) :
    readItems item (limit + 1) first (blanks ++ ']' :: rest) = ([], none, rest) := by
  rw [readItems, skipBlank_append h, skipBlank_cons (by decide)]
  simp only [if_true]

theorem readItems_first (limit : Nat) (h : ∀ d ∈ blanks, isBlank d = true) (hcs : StartsValue cs)
    (hitem : item cs = (.ofJson x, rest)) :
    readItems item (limit + 1) true (blanks ++ cs) =
      ((Document.ofJson x :: (readItems item limit false rest).1),
        (readItems item limit false rest).2) := by
  obtain ⟨c, tail, rfl, hblank, hbracket⟩ := hcs
  rw [readItems, skipBlank_append h, skipBlank_cons hblank]
  simp only [hbracket, if_false, if_true, hitem]

theorem readItems_next (limit : Nat) (h : ∀ d ∈ blanks, isBlank d = true) (hcs : StartsValue cs)
    (hitem : item (blanks ++ cs) = (.ofJson x, rest)) :
    readItems item (limit + 1) false (',' :: (blanks ++ cs)) =
      ((Document.ofJson x :: (readItems item limit false rest).1),
        (readItems item limit false rest).2) := by
  obtain ⟨c, tail, rfl, hblank, hbracket⟩ := hcs
  have hhead : (skipBlank (blanks ++ c :: tail)).head? ≠ some ']' := by
    rw [skipBlank_append h, skipBlank_cons hblank]
    exact fun heq => hbracket (Option.some.inj heq)
  rw [readItems, skipBlank_cons (by decide)]
  simp only [Char.reduceEq, hhead, if_false, if_true, Bool.false_eq_true, hitem]

/-- The text of a member from behind the quote that opens its key. -/
def behindQuote (key : String) (cs : List Char) : List Char :=
  key.toList.flatMap escaped ++ '"' :: ':' :: cs

theorem writeString_append (hlayout : layout.Blank) (key : String) : ∃ gap : List Char,
    (∀ c ∈ gap, isBlank c = true) ∧ ∀ cs, writeString key ++ layout.colon ++ cs =
      '"' :: behindQuote key (gap ++ cs) := by
  obtain ⟨gap, hcolon, hgap⟩ := hlayout.colon
  refine ⟨gap, hgap, fun cs => ?_⟩
  simp [writeString, behindQuote, hcolon]

variable {value : String → Reader} {key : String} {vs : List Char} {ms : List (String × Json)}

theorem readMembers_close (h : ∀ d ∈ blanks, isBlank d = true) (first : Bool) (rest : List Char) :
    readMembers value (limit + 1) first (blanks ++ '\x7d' :: rest) = ([], none, rest) := by
  rw [readMembers, skipBlank_append h, skipBlank_cons (by decide)]
  simp only [if_true]

theorem readMembers_first (value : String → Reader) (key : String) (limit : Nat)
    (h : ∀ d ∈ blanks, isBlank d = true) (hvalue : value key vs = (.ofJson x, rest)) :
    readMembers value (limit + 1) true (blanks ++ '"' :: behindQuote key vs) =
      ((key, Document.ofJson x) :: (readMembers value limit false rest).1,
        (readMembers value limit false rest).2) := by
  rw [readMembers, skipBlank_append h, skipBlank_cons (by decide)]
  simp only [Char.reduceEq, if_false, if_true, behindQuote, scanString_written,
    skipBlank_cons (show isBlank ':' = false by decide), hvalue]

theorem readMembers_next (value : String → Reader) (key : String) (limit : Nat)
    (h : ∀ d ∈ blanks, isBlank d = true) (hvalue : value key vs = (.ofJson x, rest)) :
    readMembers value (limit + 1) false (',' :: (blanks ++ '"' :: behindQuote key vs)) =
      ((key, Document.ofJson x) :: (readMembers value limit false rest).1,
        (readMembers value limit false rest).2) := by
  rw [readMembers, skipBlank_cons (by decide)]
  simp only [Char.reduceEq, Bool.false_eq_true, if_false, if_true, skipBlank_append h,
    skipBlank_cons (show isBlank '"' = false by decide), behindQuote, scanString_written,
    skipBlank_cons (show isBlank ':' = false by decide), hvalue]

theorem length_writeItems (layout : Layout) (k : Nat) (xs : List Json) :
    xs.length < (writeItems layout k xs).length ∧
      ∀ x ∈ xs, (write layout (k + 1) x).length ≤ (writeItems layout k xs).length := by
  induction xs with
  | nil => simp [writeItems]
  | cons y ys ih =>
    obtain ⟨hmany, heach⟩ := ih
    simp only [writeItems, List.length_cons, List.length_append]
    refine ⟨by omega, fun x hx => ?_⟩
    rcases List.mem_cons.mp hx with rfl | hx
    · omega
    · have := heach x hx
      omega

theorem length_writeMembers (layout : Layout) (k : Nat) (ms : List (String × Json)) :
    ms.length < (writeMembers layout k ms).length ∧
      ∀ m ∈ ms, (write layout (k + 1) m.2).length ≤ (writeMembers layout k ms).length := by
  induction ms with
  | nil => simp [writeMembers]
  | cons n ns ih =>
    obtain ⟨hmany, heach⟩ := ih
    simp only [writeMembers, List.length_cons, List.length_append]
    refine ⟨by omega, fun m hm => ?_⟩
    rcases List.mem_cons.mp hm with rfl | hm
    · omega
    · have := heach m hm
      omega

theorem length_write_arr (layout : Layout) (k : Nat) (xs : List Json) :
    xs.length < (write layout k (.arr xs)).length ∧
      ∀ x ∈ xs, (write layout (k + 1) x).length ≤ (write layout k (.arr xs)).length := by
  cases xs with
  | nil => simp [write]
  | cons y ys =>
    obtain ⟨hmany, heach⟩ := length_writeItems layout k ys
    simp only [write, List.length_cons, List.length_append]
    refine ⟨by omega, fun x hx => ?_⟩
    rcases List.mem_cons.mp hx with rfl | hx
    · omega
    · have := heach x hx
      omega

theorem length_write_obj (layout : Layout) (k : Nat) (ms : List (String × Json)) :
    ms.length < (write layout k (.obj ms)).length ∧
      ∀ m ∈ ms, (write layout (k + 1) m.2).length ≤ (write layout k (.obj ms)).length := by
  cases ms with
  | nil => simp [write]
  | cons n ns =>
    obtain ⟨hmany, heach⟩ := length_writeMembers layout k ns
    simp only [write, List.length_cons, List.length_append]
    refine ⟨by omega, fun m hm => ?_⟩
    rcases List.mem_cons.mp hm with rfl | hm
    · omega
    · have := heach m hm
      omega

theorem readItems_writeItems (hlayout : layout.Blank) (hfits : ∀ x ∈ xs, Fits depth x)
    (hitem : ∀ x ∈ xs, ∀ rest, ClosesNumber rest →
      readValue limit depth (write layout (k + 1) x ++ rest) = (.ofJson x, rest))
    (fuel : Nat) (hfuel : xs.length < fuel) :
    readItems (readValue limit depth) fuel false (writeItems layout k xs ++ rest) =
      (Document.ofItems xs, none, rest) := by
  induction xs generalizing fuel with
  | nil =>
    obtain ⟨fuel, rfl⟩ := Nat.exists_eq_succ_of_ne_zero (Nat.ne_of_gt hfuel)
    rw [writeItems, List.append_assoc]
    exact readItems_close (hlayout.lineBreak k) false rest
  | cons x xs ih =>
    obtain ⟨fuel, rfl⟩ := Nat.exists_eq_succ_of_ne_zero (Nat.ne_of_gt (Nat.zero_lt_of_lt hfuel))
    have hread := hitem x List.mem_cons_self _ (closesNumber_writeItems (k := k) hlayout xs rest)
    have hnext := readItems_next fuel (hlayout.lineBreak (k + 1))
      ((startsValue_write (hfits x List.mem_cons_self)).append _)
      ((readValue_append (hlayout.lineBreak (k + 1)) _).trans hread)
    have hrest := ih (fun y hy => hfits y (List.mem_cons_of_mem _ hy))
      (fun y hy => hitem y (List.mem_cons_of_mem _ hy)) fuel (by simpa using hfuel)
    rw [hrest] at hnext
    rw [writeItems, List.cons_append, List.append_assoc, List.append_assoc]
    exact hnext

theorem readMembers_writeMembers (hlayout : layout.Blank)
    (hvalue : ∀ m ∈ ms, ∀ rest, ClosesNumber rest →
      readValue limit depth (write layout (k + 1) m.2 ++ rest) = (.ofJson m.2, rest))
    (fuel : Nat) (hfuel : ms.length < fuel) :
    readMembers (fun _ => readValue limit depth) fuel false (writeMembers layout k ms ++ rest) =
      (Document.ofMembers ms, none, rest) := by
  induction ms generalizing fuel with
  | nil =>
    obtain ⟨fuel, rfl⟩ := Nat.exists_eq_succ_of_ne_zero (Nat.ne_of_gt hfuel)
    rw [writeMembers, List.append_assoc]
    exact readMembers_close (hlayout.lineBreak k) false rest
  | cons m ms ih =>
    obtain ⟨key, x⟩ := m
    obtain ⟨fuel, rfl⟩ := Nat.exists_eq_succ_of_ne_zero (Nat.ne_of_gt (Nat.zero_lt_of_lt hfuel))
    obtain ⟨gap, hgap, hkey⟩ := writeString_append hlayout key
    have hread := hvalue _ List.mem_cons_self _
      (closesNumber_writeMembers (k := k) hlayout ms rest)
    have hmember := (readValue_append hgap _).trans hread
    have hnext := readMembers_next (fun _ => readValue limit depth) key fuel
      (hlayout.lineBreak (k + 1)) hmember
    have hrest := ih (fun n hn => hvalue n (List.mem_cons_of_mem _ hn)) fuel (by simpa using hfuel)
    rw [hrest, ← hkey] at hnext
    rw [writeMembers]
    simp only [List.cons_append, List.append_assoc] at hnext ⊢
    exact hnext

theorem readWith_arr :
    readWith limit (some (item, value)) ('[' :: cs) = (.arr (readItems item limit true cs).1
      (readItems item limit true cs).2.1, (readItems item limit true cs).2.2) := by
  rw [readWith, skipBlank_cons (by decide)]
  rfl

theorem readWith_obj :
    readWith limit (some (item, value)) ('\x7b' :: cs) = (.obj (readMembers value limit true cs).1
      (readMembers value limit true cs).2.1, (readMembers value limit true cs).2.2) := by
  rw [readWith, skipBlank_cons (by decide)]
  rfl

theorem readItems_written (hlayout : layout.Blank) (hfits : ∀ y ∈ x :: xs, Fits depth y)
    (hitem : ∀ y ∈ x :: xs, ∀ rest, ClosesNumber rest →
      readValue limit depth (write layout (k + 1) y ++ rest) = (.ofJson y, rest))
    (hlimit : (x :: xs).length < limit) (rest : List Char) :
    readItems (readValue limit depth) limit true
      (layout.lineBreak (k + 1) ++ write layout (k + 1) x ++ writeItems layout k xs ++ rest) =
        (Document.ofItems (x :: xs), none, rest) := by
  obtain ⟨fuel, rfl⟩ := Nat.exists_eq_succ_of_ne_zero (Nat.ne_of_gt (Nat.zero_lt_of_lt hlimit))
  have hread := hitem x List.mem_cons_self _ (closesNumber_writeItems (k := k) hlayout xs rest)
  have hfirst := readItems_first fuel (hlayout.lineBreak (k + 1))
    ((startsValue_write (hfits x List.mem_cons_self)).append _) hread
  rw [readItems_writeItems hlayout (fun y hy => hfits y (List.mem_cons_of_mem _ hy))
    (fun y hy => hitem y (List.mem_cons_of_mem _ hy)) fuel (by simpa using hlimit)] at hfirst
  simp only [List.append_assoc] at hfirst ⊢
  exact hfirst

theorem readMembers_written (hlayout : layout.Blank)
    (hvalue : ∀ m ∈ (key, x) :: ms, ∀ rest, ClosesNumber rest →
      readValue limit depth (write layout (k + 1) m.2 ++ rest) = (.ofJson m.2, rest))
    (hlimit : ((key, x) :: ms).length < limit) (rest : List Char) :
    readMembers (fun _ => readValue limit depth) limit true
      (layout.lineBreak (k + 1) ++ writeString key ++ layout.colon ++ write layout (k + 1) x ++
        writeMembers layout k ms ++ rest) = (Document.ofMembers ((key, x) :: ms), none, rest) := by
  obtain ⟨fuel, rfl⟩ := Nat.exists_eq_succ_of_ne_zero (Nat.ne_of_gt (Nat.zero_lt_of_lt hlimit))
  obtain ⟨gap, hgap, hkey⟩ := writeString_append hlayout key
  have hread := hvalue _ List.mem_cons_self _
    (closesNumber_writeMembers (k := k) hlayout ms rest)
  have hmember := (readValue_append hgap _).trans hread
  have hfirst := readMembers_first (fun _ => readValue (fuel + 1) depth) key fuel
    (hlayout.lineBreak (k + 1)) hmember
  rw [readMembers_writeMembers hlayout (fun n hn => hvalue n (List.mem_cons_of_mem _ hn)) fuel
    (by simpa using hlimit), ← hkey] at hfirst
  simp only [List.append_assoc] at hfirst ⊢
  exact hfirst

/-- What is written is read back, in any layout, and nothing behind it is touched. -/
theorem readValue_write (hlayout : layout.Blank) (h : Fits depth j) (k : Nat)
    (hrest : ClosesNumber rest) (hlimit : (write layout k j).length ≤ limit) :
    readValue limit depth (write layout k j ++ rest) = (.ofJson j, rest) := by
  -- A container takes one level from both sides: from `Fits` and from what the reader may open.
  induction h generalizing k rest with
  | null =>
    obtain ⟨inner, hinner⟩ := exists_readWith limit _
    rw [hinner]
    rfl
  | @bool _ value =>
    obtain ⟨inner, hinner⟩ := exists_readWith limit _
    rw [hinner]
    cases value <;> rfl
  | num hn =>
    obtain ⟨inner, hinner⟩ := exists_readWith limit _
    obtain ⟨c, cs, hcs, hc⟩ := head_writeNumber hn
    have hnumber := readNumber_write hn hrest
    rw [hcs] at hnumber
    rw [hinner, write, hcs]
    exact (readWith_number hc).trans hnumber
  | @str _ value =>
    obtain ⟨inner, hinner⟩ := exists_readWith limit _
    rw [hinner, write, writeString, List.cons_append, List.append_assoc, readWith,
      skipBlank_cons (by decide)]
    simp only [Char.reduceEq, if_false, if_true]
    rw [List.singleton_append, scanString_written]
    rfl
  | @arr depth items hitems ih =>
    obtain ⟨hmany, heach⟩ := length_write_arr layout k items
    have hroom := Nat.lt_of_lt_of_le hmany hlimit
    have hread : ∀ y ∈ items, ∀ rest, ClosesNumber rest →
        readValue limit depth (write layout (k + 1) y ++ rest) = (.ofJson y, rest) :=
      fun y hy rest hrest => ih y hy (k + 1) hrest (Nat.le_trans (heach y hy) hlimit)
    rw [readValue]
    cases items with
    | nil =>
      obtain ⟨fuel, rfl⟩ := Nat.exists_eq_succ_of_ne_zero (Nat.ne_of_gt hroom)
      rw [write, List.cons_append, readWith_arr]
      rfl
    | cons x xs =>
      have hitems := readItems_written hlayout hitems hread hroom rest
      rw [write, List.cons_append, readWith_arr, hitems]
      rfl
  | @obj depth members hkeys hmembers ih =>
    obtain ⟨hmany, heach⟩ := length_write_obj layout k members
    have hroom := Nat.lt_of_lt_of_le hmany hlimit
    have hread : ∀ m ∈ members, ∀ rest, ClosesNumber rest →
        readValue limit depth (write layout (k + 1) m.2 ++ rest) = (.ofJson m.2, rest) :=
      fun m hm rest hrest => ih m hm (k + 1) hrest (Nat.le_trans (heach m hm) hlimit)
    rw [readValue]
    cases members with
    | nil =>
      obtain ⟨fuel, rfl⟩ := Nat.exists_eq_succ_of_ne_zero (Nat.ne_of_gt hroom)
      rw [write, List.cons_append, readWith_obj]
      rfl
    | cons m ms =>
      obtain ⟨key, x⟩ := m
      have hmembers := readMembers_written hlayout hread hroom rest
      rw [write, List.cons_append, readWith_obj, hmembers]
      rfl

end PortNet.Json
