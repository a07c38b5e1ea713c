import CommandLine.Argument.Read

/-! Numerals, and the numbers of a kind that they denote.

A numeral is read from the left, and what is wrong with it is decided at the first
digit that takes the number out of range. Every further digit only takes it further
away from zero, so that this comes to comparing the whole number with the limits.
-/

set_option autoImplicit false

namespace CommandLine

structure Digits (cs : List Char) : Prop where
  nonempty : cs ≠ []
  decimal : ∀ c ∈ cs, c.isDigit = true

def signedBy (negative : Bool) (magnitude : Nat) : Int :=
  if negative then -magnitude else magnitude

@[simp] theorem signedBy_zero (negative : Bool) : signedBy negative 0 = 0 := by
  cases negative <;> rfl

/-- A number in decimal notation; only if the notation is `signed` may it start with a minus. -/
inductive Numeral (signed : Bool) : List Char → Int → Prop where
  | bare {digits : List Char} (digital : Digits digits) :
    Numeral signed digits (signedBy false (Nat.ofDigitChars 10 digits 0))
  | plus {digits : List Char} (digital : Digits digits) :
    Numeral signed ('+' :: digits) (signedBy false (Nat.ofDigitChars 10 digits 0))
  | minus {digits : List Char} (digital : Digits digits) (allowed : signed = true) :
    Numeral signed ('-' :: digits) (signedBy true (Nat.ofDigitChars 10 digits 0))

theorem le_ofDigitChars (digits : List Char) (start : Nat) :
    start ≤ Nat.ofDigitChars 10 digits start := by
  rw [Nat.ofDigitChars_eq_ofDigitChars_zero]
  have powers : 0 < 10 ^ digits.length := Nat.pow_pos (by decide)
  exact Nat.le_add_right_of_le (Nat.le_mul_of_pos_left _ powers)

namespace IntegerKind

structure Holds (kind : IntegerKind) (number : Int) : Prop where
  above : kind.minimum ≤ number
  below : number ≤ kind.maximum
  nonzero : kind.nonzero = true → number ≠ 0

def fitted (kind : IntegerKind) (number : Int) : Except Fault Int :=
  if kind.maximum < number then .error .tooLarge
  else if number < kind.minimum then .error .tooSmall
  else .ok number

variable {kind : IntegerKind} {negative : Bool}

theorem minimum_le_zero (kind : IntegerKind) : kind.minimum ≤ 0 := by
  unfold minimum
  split <;> omega

theorem zero_le_maximum (kind : IntegerKind) : 0 ≤ kind.maximum := by
  have many (bits : Nat) : 0 < values bits := Nat.pow_pos (by decide)
  unfold maximum
  split
  · have := many (kind.bits - 1)
    omega
  · have := many kind.bits
    omega

theorem fitted_eq_ok_iff {number fitting : Int} :
    kind.fitted number = .ok fitting ↔
      fitting = number ∧ kind.minimum ≤ number ∧ number ≤ kind.maximum := by
  unfold fitted
  split
  · simp only [reduceCtorEq, false_iff]
    omega
  · split
    · simp only [reduceCtorEq, false_iff]
      omega
    · simp only [Except.ok.injEq]
      omega

theorem fitted_zero (kind : IntegerKind) (negative : Bool) :
    kind.fitted (signedBy negative 0) = .ok (signedBy negative 0) := by
  rw [fitted_eq_ok_iff, signedBy_zero]
  exact ⟨rfl, kind.minimum_le_zero, kind.zero_le_maximum⟩

/-- A number that does not fit cannot come back by growing. -/
theorem fitted_of_le {near far : Nat} {fault : Fault}
    (out : kind.fitted (signedBy negative near) = .error fault) (further : near ≤ far) :
    kind.fitted (signedBy negative far) = .error fault := by
  have low := kind.minimum_le_zero
  have high := kind.zero_le_maximum
  unfold fitted at out ⊢
  cases negative with
  | false =>
    simp only [signedBy, Bool.false_eq_true, if_false] at out ⊢
    split at out
    · rwa [if_pos (by omega)]
    · rw [if_neg (by omega)] at out
      cases out
  | true =>
    simp only [signedBy, if_true] at out ⊢
    rw [if_neg (by omega)] at out ⊢
    split at out
    · rwa [if_pos (by omega)]
    · cases out

theorem digit?_of_isDigit {c : Char} (digit : c.isDigit = true) :
    digit? c = some (c.toNat - '0'.toNat) := by
  obtain ⟨low, high⟩ := Char.isDigit_iff_toNat.mp digit
  exact if_pos ⟨low, high⟩

theorem digit?_of_not_isDigit {c : Char} (other : c.isDigit = false) : digit? c = none := by
  refine if_neg fun ⟨low, high⟩ => ?_
  rw [Char.isDigit_iff_toNat.mpr ⟨low, high⟩] at other
  cases other

def lengthened (negative : Bool) (number : Int) (c : Char) : Int :=
  if negative then number * 10 - (c.toNat - '0'.toNat : Nat)
  else number * 10 + (c.toNat - '0'.toNat : Nat)

theorem lengthened_signedBy (negative : Bool) (magnitude : Nat) (c : Char) :
    lengthened negative (signedBy negative magnitude) c =
      signedBy negative (10 * magnitude + (c.toNat - '0'.toNat)) := by
  unfold lengthened signedBy
  split <;> omega

theorem extend_cons {c : Char} (digit : c.isDigit = true) (number : Int) (rest : List Char) :
    kind.extend negative number (c :: rest) =
      (kind.fitted (lengthened negative number c)).bind fun longer =>
        kind.extend negative longer rest := by
  simp only [extend, digit?_of_isDigit digit, ← lengthened.eq_def, fitted]
  split
  · rfl
  · split <;> rfl

theorem extend_digits {digits : List Char} (decimal : ∀ c ∈ digits, c.isDigit = true)
    {magnitude : Nat}
    (fits : kind.fitted (signedBy negative magnitude) = .ok (signedBy negative magnitude)) :
    kind.extend negative (signedBy negative magnitude) digits =
      kind.fitted (signedBy negative (Nat.ofDigitChars 10 digits magnitude)) := by
  -- Comparing after each of them comes to comparing once.
  induction digits generalizing magnitude with
  | nil => rw [Nat.ofDigitChars_nil, fits, extend]
  | cons c rest ih =>
    obtain ⟨digit, others⟩ := List.forall_mem_cons.mp decimal
    rw [extend_cons digit, lengthened_signedBy, Nat.ofDigitChars_cons]
    cases near : kind.fitted (signedBy negative (10 * magnitude + (c.toNat - '0'.toNat))) with
    | error fault =>
      rw [fitted_of_le near (le_ofDigitChars rest _)]
      rfl
    | ok longer =>
      obtain ⟨rfl, -⟩ := fitted_eq_ok_iff.mp near
      exact ih others near

theorem isDigit_of_extend {digits : List Char} {number result : Int}
    (read : kind.extend negative number digits = .ok result) : ∀ c ∈ digits, c.isDigit = true := by
  induction digits generalizing number with
  | nil => exact nofun
  | cons c rest ih =>
    cases digit : c.isDigit with
    | false =>
      rw [extend, digit?_of_not_isDigit digit] at read
      cases read
    | true =>
      rw [extend_cons digit] at read
      cases near : kind.fitted (lengthened negative number c) with
      | error fault =>
        rw [near] at read
        cases read
      | ok longer =>
        rw [near] at read
        exact List.forall_mem_cons.mpr ⟨digit, ih read⟩

theorem readDigits_of_digits {digits : List Char} (digital : Digits digits) :
    kind.readDigits negative digits =
      kind.fitted (signedBy negative (Nat.ofDigitChars 10 digits 0)) := by
  rw [readDigits, if_neg (by simpa using digital.nonempty), ← signedBy_zero negative,
    extend_digits digital.decimal (kind.fitted_zero negative)]

theorem readDigits_eq_ok {digits : List Char} {number : Int}
    (read : kind.readDigits negative digits = .ok number) :
    Digits digits ∧ signedBy negative (Nat.ofDigitChars 10 digits 0) = number := by
  have digital : Digits digits := by
    unfold readDigits at read
    split at read
    next => cases read
    next nonempty => exact ⟨by simpa using nonempty, isDigit_of_extend read⟩
  rw [readDigits_of_digits digital] at read
  exact ⟨digital, (fitted_eq_ok_iff.mp read).1.symm⟩

variable {cs : List Char} {number : Int}

theorem readSigned_of_digits (digital : Digits cs) :
    kind.readSigned cs = kind.readDigits false cs := by
  unfold readSigned
  split
  · cases digital.decimal '+' List.mem_cons_self
  · cases digital.decimal '-' List.mem_cons_self
  · rfl

theorem readSigned_of_numeral (numeral : Numeral kind.signed cs number) :
    kind.readSigned cs = kind.fitted number := by
  cases numeral with
  | bare digital => rw [readSigned_of_digits digital, readDigits_of_digits digital]
  | plus digital => rw [readSigned, readDigits_of_digits digital]
  | minus digital allowed => rw [readSigned, if_pos allowed, readDigits_of_digits digital]

theorem numeral_of_readSigned (read : kind.readSigned cs = .ok number) :
    Numeral kind.signed cs number := by
  unfold readSigned at read
  split at read
  · obtain ⟨digital, rfl⟩ := readDigits_eq_ok read
    exact .plus digital
  · split at read
    next allowed =>
      obtain ⟨digital, rfl⟩ := readDigits_eq_ok read
      exact .minus digital allowed
    next => cases read
  · obtain ⟨digital, rfl⟩ := readDigits_eq_ok read
    exact .bare digital

variable {token : String}

theorem read_eq_ok_iff :
    kind.read token = .ok number ↔ Numeral kind.signed token.toList number ∧ kind.Holds number := by
  unfold read
  constructor
  · intro made
    split at made
    next => cases made
    next result signed =>
      split at made
      next => cases made
      next accepted =>
        cases made
        have numeral := numeral_of_readSigned signed
        rw [readSigned_of_numeral numeral] at signed
        obtain ⟨-, above, below⟩ := fitted_eq_ok_iff.mp signed
        exact ⟨numeral, above, below, by simpa using accepted⟩
  · rintro ⟨numeral, above, below, nonzero⟩
    have accepted : ¬(kind.nonzero && number == 0) = true := by simpa using nonzero
    rw [readSigned_of_numeral numeral, fitted_eq_ok_iff.mpr ⟨rfl, above, below⟩]
    exact if_neg accepted

theorem read_of_large (numeral : Numeral kind.signed token.toList number)
    (large : kind.maximum < number) : kind.read token = .error .tooLarge := by
  rw [read, readSigned_of_numeral numeral, fitted, if_pos large]

theorem read_of_small (numeral : Numeral kind.signed token.toList number)
    (small : number < kind.minimum) : kind.read token = .error .tooSmall := by
  have low : number < kind.maximum :=
    Int.lt_of_lt_of_le small (Int.le_trans kind.minimum_le_zero kind.zero_le_maximum)
  rw [read, readSigned_of_numeral numeral, fitted, if_neg (Int.not_lt.mpr (Int.le_of_lt low)),
    if_pos small]

end IntegerKind

namespace Argument

variable {σ : Type}

theorem outcome_read_integer (label : Label) (kind : IntegerKind) (input : Input σ) (mode : Mode)
    (context : Context) {cursor behind : Cursor} {token : String}
    (next : cursor.next? = some (token, behind)) :
    ((integer label kind).read input mode context cursor).outcome =
      match kind.read token with
      | .error fault => .error (.error (.invalid label.shown token fault.reason))
      | .ok number => .ok (some (.integer kind number)) := by
  rw [read, Reading.outcome_kept, Reading.integer, Reading.token, next]
  dsimp only
  cases kind.read token with
  | error fault => rfl
  | ok number => rfl

/-- A token is read as an integer exactly if it is a numeral for a number of the kind, and that
number is the value. Any other token is invalid, and a numeral out of range says on which side. -/
theorem reads_numerals (label : Label) (kind : IntegerKind) (input : Input σ) (mode : Mode)
    (context : Context) {cursor behind : Cursor} {token : String}
    (next : cursor.next? = some (token, behind)) :
    let outcome := ((integer label kind).read input mode context cursor).outcome
    (∀ value, outcome = .ok (some value) ↔
        ∃ number, Numeral kind.signed token.toList number ∧ kind.Holds number ∧
          value = .integer kind number) ∧
      ((∀ number, Numeral kind.signed token.toList number → ¬kind.Holds number) →
        ∃ reason, outcome = .error (.error (.invalid label.shown token reason))) ∧
      ∀ number, Numeral kind.signed token.toList number →
        (kind.maximum < number →
          outcome = .error (.error (.invalid label.shown token (some "too large")))) ∧
        (number < kind.minimum →
          outcome = .error (.error (.invalid label.shown token (some "too small")))) := by
  intro outcome
  have told : outcome =
      match kind.read token with
      | .error fault => .error (.error (.invalid label.shown token fault.reason))
      | .ok number => .ok (some (.integer kind number)) :=
    outcome_read_integer label kind input mode context next
  refine ⟨fun value => ?_, fun strange => ?_, fun number numeral => ⟨fun large => ?_, ?_⟩⟩
  · constructor
    · intro came
      cases made : kind.read token with
      | error fault =>
        rw [told, made] at came
        cases came
      | ok number =>
        rw [told, made] at came
        cases came
        obtain ⟨numeral, holds⟩ := IntegerKind.read_eq_ok_iff.mp made
        exact ⟨number, numeral, holds, rfl⟩
    · rintro ⟨number, numeral, holds, rfl⟩
      rw [told, IntegerKind.read_eq_ok_iff.mpr ⟨numeral, holds⟩]
  · cases made : kind.read token with
    | error fault => exact ⟨fault.reason, by rw [told, made]⟩
    | ok number =>
      obtain ⟨numeral, holds⟩ := IntegerKind.read_eq_ok_iff.mp made
      exact absurd holds (strange number numeral)
  · rw [told, IntegerKind.read_of_large numeral large]
    rfl
  · intro small
    rw [told, IntegerKind.read_of_small numeral small]
    rfl

/-- Leading zeros and a plus do not count, and the limits of eight bits do. -/
theorem reads_numerals_byte :
    let byte : IntegerKind := ⟨true, 8, true⟩
    let read (token : String) :=
      ((integer ⟨"n", some "count"⟩ byte : Argument Unit).read ⟨(), 20⟩ .viewing .empty
        (.ofList [token])).outcome
    Numeral byte.signed "+0007".toList 7 ∧ byte.Holds 7 ∧
      read "+0007" = .ok (some (.integer byte 7)) ∧
      Numeral byte.signed "-129".toList (-129) ∧ -129 < byte.minimum ∧
      read "-129" = .error (.error (.invalid "count" "-129" (some "too small"))) := by
  intro byte read
  have seven : Numeral byte.signed "+0007".toList 7 :=
    @Numeral.plus _ "0007".toList ⟨by decide, List.all_eq_true.mp (by decide)⟩
  have holds : byte.Holds 7 := ⟨by decide, by decide, by decide⟩
  have below : Numeral byte.signed "-129".toList (-129) :=
    @Numeral.minus _ "129".toList ⟨by decide, List.all_eq_true.mp (by decide)⟩ rfl
  have small : -129 < byte.minimum := by decide
  have next (token : String) :
      (Cursor.ofList [token]).next? = some (token, ⟨[token], 1, Nat.le_refl _⟩) := rfl
  let input : Input Unit := ⟨(), 20⟩
  obtain ⟨valued, -⟩ := reads_numerals ⟨"n", some "count"⟩ byte input .viewing .empty (next "+0007")
  obtain ⟨-, -, sides⟩ := reads_numerals ⟨"n", some "count"⟩ byte input .viewing .empty (next "-129")
  exact ⟨seven, holds, (valued _).mpr ⟨7, seven, holds, rfl⟩, below, small, (sides _ below).2 small⟩

end Argument

end CommandLine
