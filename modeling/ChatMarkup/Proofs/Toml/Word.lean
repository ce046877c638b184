import ChatMarkup.Toml.Moment

/-!
# Numbers and dates

Words are values that stand without quotes. Digits may have underscores between them, which say
nothing; whole numbers in base ten are read back as they were written; and a date is read as one
only if the calendar has it.

Results:
* `digits?_eq_filter`: underscores between digits say nothing.
* `integer?_writtenInteger`: a whole number, written in base ten, is read back.
* `isMoment_date_iff`: a date is a moment just if the calendar has it.
-/

namespace ChatMarkup.Toml

/-! ## Digits -/

theorem hexDigit?_of_isDigit {c : Char} (h : c.isDigit = true) :
    hexDigit? c = some (c.toNat - '0'.toNat) := by
  have hbounds : ('0' ≤ c && c ≤ '9') = true := by
    simpa [Char.isDigit, Char.le_def] using h
  rw [hexDigit?, if_pos hbounds]

/-- **Underscores between digits say nothing**: the digits are the other characters. -/
theorem digits?_eq_filter {isDigit : Char → Bool} (hmark : isDigit '_' = false)
    {cs ds : List Char} (h : digits? isDigit cs = some ds) : ds = cs.filter (· ≠ '_') := by
  have hne : ∀ c, isDigit c = true → c ≠ '_' := by
    rintro c hc rfl
    rw [hmark] at hc
    cases hc
  fun_induction digits? isDigit cs generalizing ds with
  | case1 | case3 | case5 | case7 => cases h
  | case2 c hc =>
    cases h
    simp [hne c hc]
  | case4 c rest hc ih =>
    obtain ⟨more, hmore, rfl⟩ := Option.map_eq_some_iff.1 h
    simp [hne c hc, ih hmore]
  | case6 c rest _ _ hc ih =>
    obtain ⟨more, hmore, rfl⟩ := Option.map_eq_some_iff.1 h
    simp [hne c hc, ih hmore]

/-- Digits without underscores are read as they are. -/
theorem digits?_of_all {cs : List Char} (hne : cs ≠ []) (h : cs.all Char.isDigit = true) :
    digits? Char.isDigit cs = some cs := by
  fun_induction digits? Char.isDigit cs with
  | case1 => exact absurd rfl hne
  | case2 => rfl
  | case3 c hc => simp [hc] at h
  | case4 c rest hc ih => simp at h
  | case5 c rest hc => simp [hc] at h
  | case6 c rest hrest _ hc ih =>
    have hrest : rest ≠ [] := by
      rintro rfl
      contradiction
    rw [List.all_cons, Bool.and_eq_true] at h
    rw [ih hrest h.2]
    rfl
  | case7 c rest _ _ hc => simp [hc] at h

theorem all_isDigit_toDigits (n : Nat) : (Nat.toDigits 10 n).all Char.isDigit = true :=
  List.all_eq_true.2 fun _ hc => Nat.isDigit_of_mem_toDigits (by decide) (by decide) hc

theorem foldl_hexDigit?_eq_ofDigitChars {cs : List Char} (h : cs.all Char.isDigit = true)
    (n : Nat) :
    cs.foldl (fun n c => 10 * n + (hexDigit? c).getD 0) n = Nat.ofDigitChars 10 cs n := by
  induction cs generalizing n with
  | nil => rfl
  | cons c cs ih =>
    rw [List.all_cons, Bool.and_eq_true] at h
    rw [List.foldl_cons, hexDigit?_of_isDigit h.1, Option.getD_some, ih h.2]
    rfl

theorem numberOf_toDigits (n : Nat) : numberOf 10 (Nat.toDigits 10 n) = n := by
  rw [numberOf, foldl_hexDigit?_eq_ofDigitChars (all_isDigit_toDigits n),
    Nat.ofDigitChars_ten_toDigits]

/-- A number other than zero does not begin with a zero. -/
theorem head?_toDigits_ne {n : Nat} (h : n ≠ 0) : (Nat.toDigits 10 n).head? ≠ some '0' := by
  induction n using Nat.strongRecOn with
  | ind n ih =>
    rw [Nat.toDigits_eq_if (by decide)]
    split
    · rename_i hlt
      have hdigit : ∀ d : Fin 10, d.val ≠ 0 → Nat.digitChar d.val ≠ '0' := by decide
      simpa using hdigit ⟨n, hlt⟩ h
    · have hfirst := ih (n / 10) (by omega) (by omega)
      obtain ⟨c, cs, hcs⟩ := List.exists_cons_of_ne_nil (@Nat.toDigits_ne_nil (n / 10) 10)
      rw [hcs] at hfirst ⊢
      exact hfirst

/-- The digits of a number have no zero before others. -/
theorem wholeDigits?_toDigits (n : Nat) :
    wholeDigits? (Nat.toDigits 10 n) = some (Nat.toDigits 10 n) := by
  have hdigits := digits?_of_all (@Nat.toDigits_ne_nil n 10) (all_isDigit_toDigits n)
  unfold wholeDigits?
  split
  · rename_i d ds hzero
    rw [hdigits] at hzero
    have hlist := Option.some.inj hzero
    by_cases hn : n = 0
    · rw [hn, Nat.toDigits_zero] at hlist
      cases hlist
    · exact absurd (congrArg List.head? hlist) (head?_toDigits_ne hn)
  · exact hdigits

/-! ## Whole numbers -/

/-- How a whole number is written in base ten. -/
def writtenInteger : Int → List Char
  | .ofNat n => Nat.toDigits 10 n
  | .negSucc n => '-' :: Nat.toDigits 10 (n + 1)

/-- **A whole number, written in base ten, is read back.** -/
theorem integer?_writtenInteger (n : Int) : integer? (writtenInteger n) = some n := by
  cases n with
  | negSucc n =>
    show (wholeDigits? (Nat.toDigits 10 (n + 1))).map _ = _
    rw [wholeDigits?_toDigits, Option.map_some, numberOf_toDigits]
    rfl
  | ofNat n =>
    have hall := List.all_eq_true.1 (all_isDigit_toDigits n)
    have hsign : takeSign (Nat.toDigits 10 n) = (false, Nat.toDigits 10 n) := by
      unfold takeSign
      split
      · rename_i hminus
        cases hall '-' (hminus ▸ List.mem_cons_self)
      · rename_i hplus
        cases hall '+' (hplus ▸ List.mem_cons_self)
      · rfl
    show integer? (Nat.toDigits 10 n) = _
    unfold integer?
    split
    · rename_i hbase
      cases hall 'x' (hbase ▸ List.mem_cons_of_mem _ List.mem_cons_self)
    · rename_i hbase
      cases hall 'o' (hbase ▸ List.mem_cons_of_mem _ List.mem_cons_self)
    · rename_i hbase
      cases hall 'b' (hbase ▸ List.mem_cons_of_mem _ List.mem_cons_self)
    · simp [hsign, wholeDigits?_toDigits, numberOf_toDigits]

/-! ## Dates -/

theorem fixedDigits?_append {ds : List Char} (h : ds.all Char.isDigit = true) (rest : List Char) :
    fixedDigits? ds.length (ds ++ rest) = some (numberOf 10 ds, rest) := by
  simp [fixedDigits?, h]

/-- A date that the calendar has. -/
def IsDate (year month day : Nat) : Prop :=
  1 ≤ month ∧ month ≤ 12 ∧ 1 ≤ day ∧ day ≤ daysInMonth year month

instance (year month day : Nat) : Decidable (IsDate year month day) :=
  inferInstanceAs (Decidable (_ ∧ _))

section Date

variable {ys ms ds : List Char}

/-- A date is read if the calendar has it. -/
theorem afterDate?_append (hys : ys.all Char.isDigit = true ∧ ys.length = 4)
    (hms : ms.all Char.isDigit = true ∧ ms.length = 2)
    (hds : ds.all Char.isDigit = true ∧ ds.length = 2) (rest : List Char) :
    afterDate? (ys ++ '-' :: (ms ++ '-' :: (ds ++ rest))) =
      if IsDate (numberOf 10 ys) (numberOf 10 ms) (numberOf 10 ds) then some rest else none := by
  have hyear := fixedDigits?_append hys.1 ('-' :: (ms ++ '-' :: (ds ++ rest)))
  have hmonth := fixedDigits?_append hms.1 ('-' :: (ds ++ rest))
  have hday := fixedDigits?_append hds.1 rest
  rw [hys.2] at hyear
  rw [hms.2] at hmonth
  rw [hds.2] at hday
  have hread : afterDate? (ys ++ '-' :: (ms ++ '-' :: (ds ++ rest))) =
      if 1 ≤ numberOf 10 ms && numberOf 10 ms ≤ 12 && 1 ≤ numberOf 10 ds &&
          numberOf 10 ds ≤ daysInMonth (numberOf 10 ys) (numberOf 10 ms)
        then some rest else none := by
    simp [afterDate?, hyear, hmonth, hday, expect?]
  rw [hread]
  by_cases h : IsDate (numberOf 10 ys) (numberOf 10 ms) (numberOf 10 ds)
  · rw [if_pos h, if_pos (by simpa [IsDate, and_assoc] using h)]
  · rw [if_neg h, if_neg (by simpa [IsDate, and_assoc] using h)]

/-- A date is no time of day. -/
theorem afterTime?_append (hys : ys.all Char.isDigit = true ∧ ys.length = 4) (rest : List Char) :
    afterTime? (ys ++ rest) = none := by
  obtain ⟨hall, hlength⟩ := hys
  rcases ys with _ | ⟨a, _ | ⟨b, _ | ⟨c, ys⟩⟩⟩
  · cases hlength
  · cases hlength
  · cases hlength
  simp only [List.all_cons, Bool.and_eq_true] at hall
  obtain ⟨ha, hb, hc, -⟩ := hall
  have hcolon : c ≠ ':' := by
    rintro rfl
    cases hc
  simp [afterTime?, afterMinutes?, fixedDigits?, ha, hb, expect?, hcolon]

/-- **A date is a moment just if the calendar has it.** -/
theorem isMoment_date_iff (hys : ys.all Char.isDigit = true ∧ ys.length = 4)
    (hms : ms.all Char.isDigit = true ∧ ms.length = 2)
    (hds : ds.all Char.isDigit = true ∧ ds.length = 2) :
    isMoment (ys ++ '-' :: (ms ++ '-' :: ds)) = true ↔
      IsDate (numberOf 10 ys) (numberOf 10 ms) (numberOf 10 ds) := by
  have hdate := afterDate?_append hys hms hds []
  rw [List.append_nil] at hdate
  unfold isMoment
  rw [hdate, afterTime?_append hys]
  by_cases h : IsDate (numberOf 10 ys) (numberOf 10 ms) (numberOf 10 ds)
  · simp [h]
  · simp [h]

end Date

end ChatMarkup.Toml
