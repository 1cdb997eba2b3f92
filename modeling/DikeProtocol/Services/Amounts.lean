import DikeProtocol.Lib.Decimal
import Mathlib.Algebra.Order.Floor.Div
import Mathlib.Data.Rat.Floor
import Mathlib.Tactic.Ring

/-!
# Amounts as texts

The web client shows amounts of tokens with seven decimals and reads what users
enter, by the integer grammar of the language on both sides of the point. What
is shown of an amount reads as that amount, and what is entered is rounded
down; a minus sign belongs to the whole part only.
-/

namespace DikeProtocol.Services.Amounts

open Lib

/-- The white space around an integer. -/
def isStrWhiteSpace (c : Char) : Bool :=
  c.toNat ∈ [9, 10, 11, 12, 13, 32, 160, 5760, 8232, 8233, 8239, 8287, 12288, 65279] ||
    (8192 ≤ c.toNat && c.toNat ≤ 8202)

/-- A text without the white space around it. -/
def trim (text : List Char) : List Char :=
  (text.dropWhile isStrWhiteSpace).rdropWhile isStrWhiteSpace

/-- The value of a digit, of any radix. -/
def digitValue (c : Char) : Option ℕ :=
  if c.isDigit then some (c.toNat - '0'.toNat)
  else if 'a' ≤ c ∧ c ≤ 'f' then some (c.toNat - 'a'.toNat + 10)
  else if 'A' ≤ c ∧ c ≤ 'F' then some (c.toNat - 'A'.toNat + 10)
  else none

/-- Digits of a radix. -/
def readDigits (radix : ℕ) (n : ℕ) : List Char → Option ℕ
  | [] => some n
  | c :: text =>
    match digitValue c with
    | some d => if d < radix then readDigits radix (radix * n + d) text else none
    | none => none

/-- At least one digit of a radix. -/
def readSome (radix : ℕ) (text : List Char) : Option ℤ :=
  if text = [] then none else (readDigits radix 0 text).map fun n : ℕ => (n : ℤ)

/-- The radix that a letter after a zero stands for. -/
def radixOf (c : Char) : Option ℕ :=
  if c = 'x' ∨ c = 'X' then some 16
  else if c = 'o' ∨ c = 'O' then some 8
  else if c = 'b' ∨ c = 'B' then some 2
  else none

/-- An integer that begins with a zero: the next letter may stand for a radix. -/
def readZero (c : Char) (rest : List Char) : Option ℤ :=
  match radixOf c with
  | some radix => readSome radix rest
  | none => readSome 10 ('0' :: c :: rest)

/-- The integer of a text, where `BigInt` does not throw. Nothing is zero; only decimals have a
sign. -/
def bigIntOf (text : List Char) : Option ℤ :=
  match trim text with
  | [] => some 0
  | '-' :: rest => (readSome 10 rest).map fun n => -n
  | '+' :: rest => readSome 10 rest
  | '0' :: c :: rest => readZero c rest
  | rest => readSome 10 rest

/-- The text of an integer. -/
def textOf (n : ℤ) : List Char :=
  if n < 0 then '-' :: Nat.toDigits 10 n.natAbs else Nat.toDigits 10 n.natAbs

/-- One token in its smallest units. -/
def unitsPerToken : ℤ := 10000000

/-- Show an amount with up to seven decimals. -/
def formatUsdc (raw : ℤ) : List Char :=
  let whole := raw.tdiv unitsPerToken
  let frac := raw.tmod unitsPerToken
  let fracStr := ((textOf frac).leftpad 7 '0').rdropWhile (· == '0')
  if fracStr = [] then textOf whole else textOf whole ++ '.' :: fracStr

/-- What stands before the first point. -/
def wholeOf (display : List Char) : List Char := display.takeWhile (· != '.')

/-- What stands after it, up to another one. -/
def fracOf (display : List Char) : List Char :=
  ((display.dropWhile (· != '.')).drop 1).takeWhile (· != '.')

/-- Read an amount: seven decimals, padded and cut. -/
def parseUsdc (display : List Char) : Option ℤ := do
  let whole ← bigIntOf (wholeOf display)
  let frac ← bigIntOf (padded 7 '0' (fracOf display))
  return whole * unitsPerToken + frac

section Digits

variable {text rest : List Char}

/-- A digit is its value. -/
theorem digitValue_digit {c : Char} (h : c.isDigit = true) :
    digitValue c = some (c.toNat - '0'.toNat) := if_pos h

/-- Which is less than ten. -/
theorem digit_lt {c : Char} (h : c.isDigit = true) : c.toNat - '0'.toNat < 10 := by
  rw [Char.isDigit, Bool.and_eq_true, decide_eq_true_eq, decide_eq_true_eq] at h
  have hle : c.toNat ≤ 57 := by simpa using UInt32.le_iff_toNat_le.mp h.2
  change c.toNat - 48 < 10
  omega

/-- Neither a digit nor a sign is white space. -/
theorem not_whiteSpace {c : Char} (h : c.isDigit = true ∨ c = '-') :
    isStrWhiteSpace c = false := by
  obtain h | rfl := h
  · rw [Char.isDigit, Bool.and_eq_true, decide_eq_true_eq, decide_eq_true_eq] at h
    have hge : 48 ≤ c.toNat := by simpa using UInt32.le_iff_toNat_le.mp h.1
    have hle : c.toNat ≤ 57 := by simpa using UInt32.le_iff_toNat_le.mp h.2
    simp only [isStrWhiteSpace, List.mem_cons, List.not_mem_nil, or_false, Bool.or_eq_false_iff,
      decide_eq_false_iff_not, Bool.and_eq_false_iff, not_or]
    omega
  · decide

/-- Where there is no white space nothing is trimmed. -/
theorem trim_eq (h : ∀ c ∈ text, c.isDigit = true ∨ c = '-') : trim text = text := by
  have hdrop : text.dropWhile isStrWhiteSpace = text := by
    cases text with
    | nil => rfl
    | cons c rest =>
      exact List.dropWhile_cons_of_neg (by rw [not_whiteSpace (h c List.mem_cons_self)]; decide)
  unfold trim
  rw [hdrop, List.rdropWhile_eq_self_iff]
  intro hne
  rw [not_whiteSpace (h _ (List.getLast_mem hne))]
  decide

/-- Decimal digits are read as such. -/
theorem readDigits_decimal (n : ℕ) (h : ∀ c ∈ text, c.isDigit = true) :
    readDigits 10 n text = some (Nat.ofDigitChars 10 text n) := by
  induction text generalizing n with
  | nil => rw [readDigits, Nat.ofDigitChars_nil]
  | cons c rest ih =>
    have hc := h c List.mem_cons_self
    rw [readDigits, digitValue_digit hc]
    dsimp only
    rw [if_pos (digit_lt hc), ih _ fun d hd => h d (List.mem_cons_of_mem c hd),
      Nat.ofDigitChars_cons]

/-- A sign among digits is not read. -/
theorem readDigits_sign (n radix : ℕ) (h : '-' ∈ text) : readDigits radix n text = none := by
  induction text generalizing n with
  | nil => cases h
  | cons c rest ih =>
    rw [readDigits]
    split
    · next d hd =>
      split
      · refine ih _ ?_
        obtain rfl | hrest := List.mem_cons.mp h
        · cases hd
        · exact hrest
      · rfl
    · rfl

/-- Digits are an integer, and nothing is zero. -/
theorem bigIntOf_digits (h : ∀ c ∈ text, c.isDigit = true) :
    bigIntOf text = some (Nat.ofDigitChars 10 text 0 : ℤ) := by
  have hread : ∀ {rest : List Char}, rest ≠ [] → (∀ c ∈ rest, c.isDigit = true) →
      readSome 10 rest = some (Nat.ofDigitChars 10 rest 0 : ℤ) := by
    intro rest hne hrest
    rw [readSome, if_neg hne, readDigits_decimal 0 hrest, Option.map_some]
  unfold bigIntOf
  rw [trim_eq fun c hc => Or.inl (h c hc)]
  split
  · rw [Nat.ofDigitChars_nil]; rfl
  · exact (Bool.false_ne_true (h '-' List.mem_cons_self)).elim
  · exact (Bool.false_ne_true (h '+' List.mem_cons_self)).elim
  · next c rest =>
    have hc := h c (List.mem_cons_of_mem _ List.mem_cons_self)
    have hradix : radixOf c = none := by
      unfold radixOf
      split_ifs with h1 h2 h3
      · obtain rfl | rfl := h1 <;> cases hc
      · obtain rfl | rfl := h2 <;> cases hc
      · obtain rfl | rfl := h3 <;> cases hc
      · rfl
    rw [readZero, hradix]
    exact hread (List.cons_ne_nil _ _) h
  · next hne _ _ _ => exact hread hne h

/-- Digits after a minus sign are the opposite. -/
theorem bigIntOf_minus (hne : rest ≠ []) (h : ∀ c ∈ rest, c.isDigit = true) :
    bigIntOf ('-' :: rest) = some (-(Nat.ofDigitChars 10 rest 0 : ℤ)) := by
  unfold bigIntOf
  rw [trim_eq]
  · change (readSome 10 rest).map (fun n => -n) = _
    rw [readSome, if_neg hne, readDigits_decimal 0 h, Option.map_some, Option.map_some]
  · intro c hc
    obtain rfl | hc := List.mem_cons.mp hc
    · exact Or.inr rfl
    · exact Or.inl (h c hc)

/-- A sign after a zero is no integer. -/
theorem bigIntOf_zero_minus (hrest : '-' ∈ rest)
    (h : ∀ c ∈ rest, c.isDigit = true ∨ c = '-') : bigIntOf ('0' :: rest) = none := by
  have hall : ∀ c ∈ '0' :: rest, c.isDigit = true ∨ c = '-' := by
    intro c hc
    obtain rfl | hc := List.mem_cons.mp hc
    · exact Or.inl rfl
    · exact h c hc
  have hread : readSome 10 ('0' :: rest) = none := by
    rw [readSome, if_neg (List.cons_ne_nil _ _),
      readDigits_sign 0 10 (List.mem_cons_of_mem _ hrest), Option.map_none]
  unfold bigIntOf
  rw [trim_eq hall]
  cases rest with
  | nil => cases hrest
  | cons c rest =>
    have hradix : radixOf c = none := by
      obtain hc | rfl := h c List.mem_cons_self
      · unfold radixOf
        split_ifs with h1 h2 h3
        · obtain rfl | rfl := h1 <;> cases hc
        · obtain rfl | rfl := h2 <;> cases hc
        · obtain rfl | rfl := h3 <;> cases hc
        · rfl
      · rfl
    change readZero c rest = none
    rw [readZero, hradix]
    exact hread

end Digits

section Points

variable {whole frac : List Char}

/-- Neither a digit nor a sign is a point. -/
theorem not_point {text : List Char} (h : ∀ c ∈ text, c.isDigit = true ∨ c = '-') :
    ∀ c ∈ text, (c != '.') = true := by
  intro c hc
  rw [bne_iff_ne]
  rintro rfl
  obtain hdigit | hsign := h '.' hc
  · cases hdigit
  · cases hsign

/-- What no point stands in is before the point. -/
theorem wholeOf_point (hwhole : ∀ c ∈ whole, c.isDigit = true ∨ c = '-') :
    wholeOf (whole ++ '.' :: frac) = whole := by
  unfold wholeOf
  rw [List.takeWhile_append_of_pos (not_point hwhole), List.takeWhile_cons_of_neg (by decide),
    List.append_nil]

/-- And the rest, where no point stands either, is after it. -/
theorem fracOf_point (hwhole : ∀ c ∈ whole, c.isDigit = true ∨ c = '-')
    (hfrac : ∀ c ∈ frac, c.isDigit = true ∨ c = '-') :
    fracOf (whole ++ '.' :: frac) = frac := by
  unfold fracOf
  rw [List.dropWhile_append_of_pos (not_point hwhole), List.dropWhile_cons_of_neg (by decide),
    List.drop_one, List.tail_cons, List.takeWhile_eq_self_iff.mpr (not_point hfrac)]

/-- Without a point all is before it. -/
theorem wholeOf_plain (hwhole : ∀ c ∈ whole, c.isDigit = true ∨ c = '-') :
    wholeOf whole = whole := List.takeWhile_eq_self_iff.mpr (not_point hwhole)

/-- And nothing after it. -/
theorem fracOf_plain (hwhole : ∀ c ∈ whole, c.isDigit = true ∨ c = '-') : fracOf whole = [] := by
  unfold fracOf
  rw [List.dropWhile_eq_nil_iff.mpr (not_point hwhole)]
  rfl

/-- Reading an amount with a point reads both sides. -/
theorem parseUsdc_point (hwhole : ∀ c ∈ whole, c.isDigit = true ∨ c = '-')
    (hfrac : ∀ c ∈ frac, c.isDigit = true ∨ c = '-') :
    parseUsdc (whole ++ '.' :: frac) = (bigIntOf whole).bind fun w =>
      (bigIntOf (padded 7 '0' frac)).map fun f => w * unitsPerToken + f := by
  unfold parseUsdc
  rw [wholeOf_point hwhole, fracOf_point hwhole hfrac]
  cases bigIntOf whole <;> cases bigIntOf (padded 7 '0' frac) <;> rfl

/-- Reading one without a point reads a fraction of nothing. -/
theorem parseUsdc_plain (hwhole : ∀ c ∈ whole, c.isDigit = true ∨ c = '-') :
    parseUsdc whole = (bigIntOf whole).bind fun w =>
      (bigIntOf (padded 7 '0' [])).map fun f => w * unitsPerToken + f := by
  unfold parseUsdc
  rw [wholeOf_plain hwhole, fracOf_plain hwhole]
  cases bigIntOf whole <;> cases bigIntOf (padded 7 '0' []) <;> rfl

end Points

section Format

/-- The digits of a number. -/
theorem toDigits_digits (n : ℕ) : ∀ c ∈ Nat.toDigits 10 n, c.isDigit = true :=
  fun _ hc => Nat.isDigit_of_mem_toDigits (by decide) (by decide) hc

/-- The text of an integer has digits and a sign. -/
theorem textOf_chars (n : ℤ) : ∀ c ∈ textOf n, c.isDigit = true ∨ c = '-' := by
  unfold textOf
  split
  · intro c hc
    obtain rfl | hc := List.mem_cons.mp hc
    · exact Or.inr rfl
    · exact Or.inl (toDigits_digits _ c hc)
  · exact fun c hc => Or.inl (toDigits_digits _ c hc)

/-- It reads as that integer. -/
theorem bigIntOf_textOf (n : ℤ) : bigIntOf (textOf n) = some n := by
  unfold textOf
  split
  · rw [bigIntOf_minus Nat.toDigits_ne_nil (toDigits_digits _), Nat.ofDigitChars_ten_toDigits]
    congr 1
    omega
  · rw [bigIntOf_digits (toDigits_digits _), Nat.ofDigitChars_ten_toDigits]
    congr 1
    omega

/-- A padded text has digits and a sign. -/
theorem leftpad_chars (n : ℤ) :
    ∀ c ∈ (textOf n).leftpad 7 '0', c.isDigit = true ∨ c = '-' := by
  intro c hc
  obtain hc | hc := List.mem_append.mp hc
  · rw [List.eq_of_mem_replicate hc]
    exact Or.inl rfl
  · exact textOf_chars n c hc

/-- What is shown reads as the whole part and what its padded fraction reads as. -/
theorem parseUsdc_formatUsdc (raw : ℤ) :
    parseUsdc (formatUsdc raw) =
      (bigIntOf (padded 7 '0' ((textOf (raw.tmod unitsPerToken)).leftpad 7 '0'))).map
        fun frac => raw.tdiv unitsPerToken * unitsPerToken + frac := by
  have hstrip := padded_strip 7 '0' ((textOf (raw.tmod unitsPerToken)).leftpad 7 '0')
  unfold formatUsdc
  dsimp only
  split
  · next hempty =>
    rw [hempty] at hstrip
    rw [parseUsdc_plain (textOf_chars _), bigIntOf_textOf, Option.bind_some, hstrip]
  · rw [parseUsdc_point (textOf_chars _), bigIntOf_textOf, Option.bind_some, hstrip]
    exact fun c hc => leftpad_chars _ c ((List.rdropWhile_prefix _ _).subset hc)

/-- A fraction whose six digits fill the seven places together with a minus sign. -/
def FillsPlaces (frac : ℤ) : Prop := 10 ^ 5 ≤ frac.natAbs ∧ frac.natAbs < 10 ^ 6

instance (frac : ℤ) : Decidable (FillsPlaces frac) := inferInstanceAs (Decidable (_ ∧ _))

/-- How many digits a number has. -/
theorem length_toDigits {n k : ℕ} (hk : 0 < k) (hlow : 10 ^ k ≤ n) (hhigh : n < 10 ^ (k + 1)) :
    (Nat.toDigits 10 n).length = k + 1 := by
  have hle := (Nat.length_toDigits_le_iff (b := 10) (n := n) (k := k + 1) (by decide)
    (by omega)).mpr hhigh
  have hgt := mt (Nat.length_toDigits_le_iff (b := 10) (n := n) (k := k) (by decide) hk).mp
    (Nat.not_lt.mpr hlow)
  omega

/-- A fraction that is not negative is padded with zeros that do not show. -/
theorem fraction_nonneg {n : ℕ} (hn : n < 10 ^ 7) :
    bigIntOf (padded 7 '0' ((Nat.toDigits 10 n).leftpad 7 '0')) = some (n : ℤ) := by
  have hlength := (Nat.length_toDigits_le_iff (b := 10) (n := n) (k := 7) (by decide)
    (by decide)).mpr hn
  have hdigits : ∀ c ∈ (Nat.toDigits 10 n).leftpad 7 '0', c.isDigit = true := by
    intro c hc
    obtain hc | hc := List.mem_append.mp hc
    · rw [List.eq_of_mem_replicate hc]
      rfl
    · exact toDigits_digits n c hc
  rw [padded_of_length (by
    rw [List.leftpad, List.length_append, List.length_replicate]
    omega), bigIntOf_digits hdigits, List.leftpad, Nat.ofDigitChars_append,
    Nat.ofDigitChars_replicate_zero, Nat.mul_zero, Nat.ofDigitChars_ten_toDigits]

/-- A negative one with few digits has its sign after a zero. -/
theorem fraction_few {n : ℕ} (hn : n < 10 ^ 5) :
    bigIntOf (padded 7 '0' (('-' :: Nat.toDigits 10 n).leftpad 7 '0')) = none := by
  have hlength := (Nat.length_toDigits_le_iff (b := 10) (n := n) (k := 5) (by decide)
    (by decide)).mpr hn
  obtain ⟨zeros, hzeros⟩ : ∃ zeros, 7 - ('-' :: Nat.toDigits 10 n).length = zeros + 1 :=
    ⟨5 - (Nat.toDigits 10 n).length, by rw [List.length_cons]; omega⟩
  rw [padded_of_length (by
    rw [List.leftpad, List.length_append, List.length_replicate, List.length_cons]
    omega), List.leftpad, hzeros, List.replicate_succ, List.cons_append]
  refine bigIntOf_zero_minus (List.mem_append_right _ List.mem_cons_self) fun c hc => ?_
  obtain hc | hc := List.mem_append.mp hc
  · rw [List.eq_of_mem_replicate hc]
    exact Or.inl rfl
  · obtain rfl | hc := List.mem_cons.mp hc
    · exact Or.inr rfl
    · exact Or.inl (toDigits_digits n c hc)

/-- One with six digits is neither padded nor cut. -/
theorem fraction_six {n : ℕ} (hlow : 10 ^ 5 ≤ n) (hhigh : n < 10 ^ 6) :
    bigIntOf (padded 7 '0' (('-' :: Nat.toDigits 10 n).leftpad 7 '0')) = some (-(n : ℤ)) := by
  have hlength := length_toDigits (k := 5) (by decide) hlow hhigh
  have hpad : ('-' :: Nat.toDigits 10 n).leftpad 7 '0' = '-' :: Nat.toDigits 10 n := by
    rw [List.leftpad, List.length_cons, hlength]
    rfl
  rw [hpad, padded_of_length (by rw [List.length_cons, hlength]),
    bigIntOf_minus Nat.toDigits_ne_nil (toDigits_digits n), Nat.ofDigitChars_ten_toDigits]

/-- One with seven loses its last digit. -/
theorem fraction_cut {n : ℕ} (hlow : 10 ^ 6 ≤ n) (hhigh : n < 10 ^ 7) :
    ∃ cut : ℕ, cut < 10 ^ 6 ∧
      bigIntOf (padded 7 '0' (('-' :: Nat.toDigits 10 n).leftpad 7 '0')) = some (-(cut : ℤ)) := by
  have hlength := length_toDigits (k := 6) (by decide) hlow hhigh
  have hpad : ('-' :: Nat.toDigits 10 n).leftpad 7 '0' = '-' :: Nat.toDigits 10 n := by
    rw [List.leftpad, List.length_cons, hlength]
    rfl
  have hdigits : ∀ c ∈ (Nat.toDigits 10 n).take 6, c.isDigit = true :=
    fun c hc => toDigits_digits n c (List.mem_of_mem_take hc)
  have htake : ((Nat.toDigits 10 n).take 6).length = 6 := by
    rw [List.length_take, hlength]
    rfl
  refine ⟨Nat.ofDigitChars 10 ((Nat.toDigits 10 n).take 6) 0, ?_, ?_⟩
  · have hlt := ofDigitChars_lt hdigits
    rwa [htake] at hlt
  · rw [hpad, padded_of_le (by rw [List.length_cons, hlength]; decide), List.take_succ_cons]
    exact bigIntOf_minus (List.ne_nil_of_length_pos (by rw [htake]; decide)) hdigits

/-- A fraction reads as itself unless it is negative and does not fill the places. -/
theorem fraction_iff {frac : ℤ} (hfrac : frac.natAbs < 10 ^ 7) :
    bigIntOf (padded 7 '0' ((textOf frac).leftpad 7 '0')) = some frac ↔
      0 ≤ frac ∨ FillsPlaces frac := by
  unfold textOf FillsPlaces
  split
  · next hneg =>
    obtain hfew | hmany := Nat.lt_or_ge frac.natAbs (10 ^ 5)
    · rw [fraction_few hfew]
      exact ⟨(fun h => by cases h), fun h => by omega⟩
    obtain hsix | hseven := Nat.lt_or_ge frac.natAbs (10 ^ 6)
    · rw [fraction_six hmany hsix]
      exact ⟨fun _ => Or.inr ⟨hmany, hsix⟩, fun _ => congrArg some (by omega)⟩
    · obtain ⟨cut, hcut, hread⟩ := fraction_cut hseven hfrac
      rw [hread, Option.some.injEq]
      constructor <;> intro h <;> omega
  · next hnonneg =>
    rw [fraction_nonneg hfrac, Option.some.injEq]
    constructor <;> intro h <;> omega

/-- What is shown of an amount reads as that amount, exactly where it is not negative, has no
fraction, or its fraction fills the places. -/
theorem parseUsdc_formatUsdc_iff (raw : ℤ) :
    parseUsdc (formatUsdc raw) = some raw ↔
      0 ≤ raw ∨ raw.tmod unitsPerToken = 0 ∨ FillsPlaces (raw.tmod unitsPerToken) := by
  have hsplit : raw.tdiv unitsPerToken * unitsPerToken + raw.tmod unitsPerToken = raw :=
    Int.tdiv_mul_add_tmod raw unitsPerToken
  have hsmall : (raw.tmod unitsPerToken).natAbs < 10 ^ 7 := by
    rw [Int.natAbs_tmod]
    exact Nat.mod_lt _ (by decide)
  have hiff := fraction_iff hsmall
  have hsign : 0 ≤ raw.tmod unitsPerToken ↔ 0 ≤ raw ∨ raw.tmod unitsPerToken = 0 := by
    constructor
    · intro h
      by_contra hnot
      rw [not_or] at hnot
      have hneg := Int.tmod_nonneg unitsPerToken (by omega : 0 ≤ -raw)
      rw [Int.neg_tmod] at hneg
      omega
    · rintro (h | h)
      · exact Int.tmod_nonneg _ h
      · exact h.ge
  rw [parseUsdc_formatUsdc, ← or_assoc, ← hsign, ← hiff]
  constructor
  · intro h
    obtain ⟨frac, hread, hsum⟩ := Option.map_eq_some_iff.mp h
    rw [hread]
    congr 1
    omega
  · intro h
    rw [h, Option.map_some]
    exact congrArg some hsplit

end Format

section Entered

variable {whole frac : List Char}

/-- The amount that digits before and after a point stand for, in the smallest units. -/
def unitsOf (whole frac : List Char) : ℚ :=
  (Nat.ofDigitChars 10 whole 0 + Nat.ofDigitChars 10 frac 0 / 10 ^ frac.length) * 10 ^ 7

/-- The first seven digits after the point. -/
theorem fraction_floor (h : ∀ c ∈ frac, c.isDigit = true) :
    bigIntOf (padded 7 '0' frac) =
      some ((Nat.ofDigitChars 10 frac 0 * 10 ^ 7 / 10 ^ frac.length : ℕ) : ℤ) := by
  rw [← ofDigitChars_padded 7 h]
  refine bigIntOf_digits fun c hc => ?_
  obtain hc | hc := List.mem_append.mp (List.mem_of_mem_take hc)
  · exact h c hc
  · rw [List.eq_of_mem_replicate hc]
    rfl

/-- The units of an amount, rounded down. -/
theorem floor_unitsOf (whole frac : List Char) :
    ⌊unitsOf whole frac⌋ = (Nat.ofDigitChars 10 whole 0 : ℤ) * unitsPerToken +
      ((Nat.ofDigitChars 10 frac 0 * 10 ^ 7 / 10 ^ frac.length : ℕ) : ℤ) := by
  have hsplit : unitsOf whole frac = ((Nat.ofDigitChars 10 whole 0 * 10 ^ 7 : ℕ) : ℚ) +
      ((Nat.ofDigitChars 10 frac 0 * 10 ^ 7 : ℕ) : ℚ) / ((10 ^ frac.length : ℕ) : ℚ) := by
    unfold unitsOf
    push_cast
    ring
  rw [hsplit, Int.floor_natCast_add, Rat.floor_natCast_div_natCast]
  unfold unitsPerToken
  push_cast
  rfl

/-- What a user enters in digits is rounded down to the smallest units. With a minus sign before
it, it reads as the opposite exactly where the whole part has digits and the fraction, if there is
a point, is less than one unit: the fraction is added whatever the sign. -/
theorem parseUsdc_entered (hwhole : ∀ c ∈ whole, c.isDigit = true)
    (hfrac : ∀ c ∈ frac, c.isDigit = true) :
    parseUsdc whole = some ⌊unitsOf whole []⌋ ∧
      parseUsdc (whole ++ '.' :: frac) = some ⌊unitsOf whole frac⌋ ∧
      (parseUsdc ('-' :: whole) = some (-⌊unitsOf whole []⌋) ↔ whole ≠ []) ∧
      (parseUsdc ('-' :: (whole ++ '.' :: frac)) = some (-⌊unitsOf whole frac⌋) ↔
        whole ≠ [] ∧ ⌊unitsOf [] frac⌋ = 0) := by
  have hchars : ∀ c ∈ whole, c.isDigit = true ∨ c = '-' := fun c hc => Or.inl (hwhole c hc)
  have hfracChars : ∀ c ∈ frac, c.isDigit = true ∨ c = '-' := fun c hc => Or.inl (hfrac c hc)
  have hsigned : ∀ c ∈ '-' :: whole, c.isDigit = true ∨ c = '-' := by
    intro c hc
    obtain rfl | hc := List.mem_cons.mp hc
    · exact Or.inr rfl
    · exact hchars c hc
  have hminus : whole = [] → bigIntOf ('-' :: whole) = none := by
    rintro rfl
    decide
  refine ⟨?_, ?_, ?_, ?_⟩
  · rw [parseUsdc_plain hchars, bigIntOf_digits hwhole, fraction_floor (fun _ hc => by cases hc),
      floor_unitsOf, Option.bind_some, Option.map_some]
  · rw [parseUsdc_point hchars hfracChars, bigIntOf_digits hwhole, fraction_floor hfrac,
      floor_unitsOf, Option.bind_some, Option.map_some]
  · rw [parseUsdc_plain hsigned, fraction_floor (fun _ hc => by cases hc), floor_unitsOf,
      Nat.ofDigitChars_nil]
    by_cases hempty : whole = []
    · rw [hminus hempty, Option.bind_none]
      exact ⟨(fun h => by cases h), fun h => (h hempty).elim⟩
    · rw [bigIntOf_minus hempty hwhole, Option.bind_some, Option.map_some, Option.some.injEq]
      exact ⟨fun _ => hempty, fun _ => by norm_num⟩
  · rw [← List.cons_append, parseUsdc_point hsigned hfracChars, fraction_floor hfrac,
      floor_unitsOf, floor_unitsOf, Nat.ofDigitChars_nil]
    unfold unitsPerToken
    generalize Nat.ofDigitChars 10 frac 0 * 10 ^ 7 / 10 ^ frac.length = units
    by_cases hempty : whole = []
    · rw [hminus hempty, Option.bind_none]
      exact ⟨(fun h => by cases h), fun h => (h.1 hempty).elim⟩
    · rw [bigIntOf_minus hempty hwhole, Option.bind_some, Option.map_some, Option.some.injEq]
      constructor
      · intro h
        exact ⟨hempty, by omega⟩
      · rintro ⟨_, h⟩
        omega

/-- An amount of which the fraction is cut. -/
theorem parseUsdc_entered_sample :
    parseUsdc "12".toList = some ⌊unitsOf "12".toList []⌋ ∧
      parseUsdc ("12".toList ++ '.' :: "50000009".toList) =
        some ⌊unitsOf "12".toList "50000009".toList⌋ ∧
      (parseUsdc ('-' :: "12".toList) = some (-⌊unitsOf "12".toList []⌋) ↔ "12".toList ≠ []) ∧
      (parseUsdc ('-' :: ("12".toList ++ '.' :: "50000009".toList)) =
          some (-⌊unitsOf "12".toList "50000009".toList⌋) ↔
        "12".toList ≠ [] ∧ ⌊unitsOf [] "50000009".toList⌋ = 0) :=
  parseUsdc_entered (List.all_eq_true.mp (by decide)) (List.all_eq_true.mp (by decide))

end Entered

end DikeProtocol.Services.Amounts
