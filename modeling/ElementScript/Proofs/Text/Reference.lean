import Mathlib.Data.List.Forall2
import Mathlib.Data.List.Induction
import Mathlib.Data.Nat.Digits.Defs
import Mathlib.Tactic.SplitIfs
import ElementScript.Call.Layout

/-! # Reading references back

`Text.Reference.Spells` gives the ways to write a character in element text: as itself, with its
number in one of two bases, or with a name of the table. A reader of references reads each of them
as the character (`read?_of_spells`) and hardly anything else (`exists_of_read?`). So decoding
undoes every mixture of them (`decode_spelling`), and what a decoded text starts or ends with is
spelled at the same end of the text it was decoded from (`spells_of_decode_cons`,
`spells_of_decode_concat`).
-/

namespace ElementScript.Text.Reference

/-! ## Numbers -/

/-- Whether a character is the digit of a value, in either case. -/
def IsDigitOf (value : Nat) (digit : Char) : Prop :=
  digit = value.digitChar ∨ digit = value.digitChar.toUpper

instance (value : Nat) (digit : Char) : Decidable (IsDigitOf value digit) :=
  inferInstanceAs (Decidable (_ ∨ _))

/-- Whether digits denote a number in a base. Zeros may stand in front of it. -/
def Denotes (base number : Nat) (digits : Text) : Prop :=
  ∃ values : List Nat, (∀ value ∈ values, value < base) ∧ List.Forall₂ IsDigitOf values digits ∧
    Nat.ofDigits base values.reverse = number

variable {character digit : Char} {digits text rest : Text} {base value : Nat}

theorem lt_of_isHexDigit (hexadecimal : isHexDigit digit) : digit.toNat < 128 := by
  simp only [isHexDigit, Char.isDigit, Bool.or_eq_true, Bool.and_eq_true, decide_eq_true_eq,
    Char.le_def, UInt32.le_iff_toNat_le] at hexadecimal
  change digit.val.toNat < 128
  rcases hexadecimal with (⟨-, high⟩ | ⟨-, high⟩) | ⟨-, high⟩
  · exact Nat.lt_of_le_of_lt high (by decide)
  · exact Nat.lt_of_le_of_lt high (by decide)
  · exact Nat.lt_of_le_of_lt high (by decide)

/-- A statement about hexadecimal digits is checked on the characters below U+0080. -/
theorem forall_isHexDigit (property : Char → Prop)
    (checked : ∀ number < 128, isHexDigit (Char.ofNat number) → property (Char.ofNat number))
    (hexadecimal : isHexDigit digit) : property digit := by
  have small := lt_of_isHexDigit hexadecimal
  have again := checked digit.toNat small
  rw [Char.ofNat_toNat] at again
  exact again hexadecimal

theorem isDigitOf_digitValue (hexadecimal : isHexDigit digit) :
    IsDigitOf (digitValue digit) digit :=
  forall_isHexDigit (fun digit => IsDigitOf (digitValue digit) digit)
    (by decide) hexadecimal

theorem isDigit_iff : digit.isDigit ↔ isHexDigit digit ∧ digitValue digit < 10 := by
  constructor
  · intro decimal
    have hexadecimal : isHexDigit digit := by simp [isHexDigit, decimal]
    exact ⟨hexadecimal, forall_isHexDigit
      (fun digit => digit.isDigit → digitValue digit < 10) (by decide)
      hexadecimal decimal⟩
  · rintro ⟨hexadecimal, small⟩
    exact forall_isHexDigit
      (fun digit => digitValue digit < 10 → digit.isDigit) (by decide)
      hexadecimal small

theorem isHexDigit_of_isDigitOf (small : value < 16) (written : IsDigitOf value digit) :
    isHexDigit digit ∧ digitValue digit = value := by
  have checked : ∀ value < 16, (isHexDigit value.digitChar ∧ digitValue value.digitChar = value) ∧
      isHexDigit value.digitChar.toUpper ∧ digitValue value.digitChar.toUpper = value := by
    decide
  rcases written with rfl | rfl
  · exact (checked value small).1
  · exact (checked value small).2

theorem number_eq (base : Nat) (digits : Text) :
    number base digits = Nat.ofDigits base (digits.map digitValue).reverse := by
  unfold number
  induction digits using List.reverseRecOn with
  | nil => rfl
  | append_singleton digits digit induction =>
      rw [List.foldl_append, induction]
      simp [Nat.ofDigits_cons, Nat.add_comm]

theorem forall₂_isDigitOf_iff {values : List Nat} (small : ∀ value ∈ values, value < 16) :
    List.Forall₂ IsDigitOf values digits ↔
      (∀ digit ∈ digits, isHexDigit digit) ∧ digits.map digitValue = values := by
  induction digits generalizing values with
  | nil =>
      rw [List.forall₂_nil_right_iff, List.map_nil, eq_comm (a := values)]
      simp
  | cons digit digits induction =>
      cases values with
      | nil => simp [List.forall₂_nil_left_iff]
      | cons value values =>
          have parts := List.forall_mem_cons.mp small
          rw [List.forall₂_cons, induction parts.2, List.forall_mem_cons, List.map_cons,
            List.cons.injEq]
          constructor
          · rintro ⟨written, hexadecimal, equal⟩
            have read := isHexDigit_of_isDigitOf parts.1 written
            exact ⟨⟨read.1, hexadecimal⟩, read.2, equal⟩
          · rintro ⟨⟨first, hexadecimal⟩, rfl, equal⟩
            exact ⟨isDigitOf_digitValue first, hexadecimal, equal⟩

theorem denotes_iff (small : base ≤ 16) :
    Denotes base value digits ↔
      (∀ digit ∈ digits, isHexDigit digit ∧ digitValue digit < base) ∧
        number base digits = value := by
  rw [number_eq]
  constructor
  · rintro ⟨values, below, written, rfl⟩
    have bounded : ∀ value ∈ values, value < 16 :=
      fun value member => Nat.lt_of_lt_of_le (below value member) small
    obtain ⟨hexadecimal, rfl⟩ := (forall₂_isDigitOf_iff bounded).mp written
    refine ⟨fun digit member => ⟨hexadecimal digit member, ?_⟩, rfl⟩
    exact below _ (List.mem_map_of_mem member)
  · rintro ⟨formed, equal⟩
    have below : ∀ value ∈ digits.map digitValue, value < base := by
      intro value member
      obtain ⟨digit, inside, rfl⟩ := List.mem_map.mp member
      exact (formed digit inside).2
    refine ⟨digits.map digitValue, below, ?_, equal⟩
    have bounded : ∀ value ∈ digits.map digitValue, value < 16 :=
      fun value member => Nat.lt_of_lt_of_le (below value member) small
    exact (forall₂_isDigitOf_iff bounded).mpr ⟨fun digit member => (formed digit member).1, rfl⟩

theorem denotes_of_all (small : base ≤ 16)
    (formed : digits.all fun digit => isHexDigit digit && digitValue digit < base)
    (equal : number base digits = value) : Denotes base value digits := by
  refine (denotes_iff small).mpr ⟨fun digit member => ?_, equal⟩
  simpa using List.all_eq_true.mp formed digit member

/-! ## Names -/

/-- Whether a text may be the name of a reference. -/
def isName : Text → Bool
  | [] => false
  | initial :: letters =>
      initial.isAlpha && letters.all Char.isAlphanum && 1 ≤ letters.length && letters.length ≤ 31

theorem isName_of_mem_table : ∀ entry ∈ table, isName entry.1.toList := by
  decide

/-- No name of the table stands for two characters. -/
theorem named?_of_mem_table : ∀ entry ∈ table, named? entry.1.toList = some entry.2 := by
  decide

theorem mem_table_of_named? {name : Text} (named : named? name = some character) :
    ∃ entry : String, name = entry.toList ∧ (entry, character) ∈ table := by
  obtain ⟨⟨entry, denoted⟩, found, rfl⟩ := Option.map_eq_some_iff.mp named
  have same := List.find?_some found
  have spelled : entry.toList = name := of_decide_eq_true same
  exact ⟨entry, spelled.symm, List.mem_of_find?_eq_some found⟩

/-! ## What is written for a character -/

/-- The ways to write a character in element text. -/
inductive Spells : Char → Text → Prop where
  | verbatim {character : Char} (plain : character ≠ '&') : Spells character [character]
  | decimal {character : Char} {digits : Text} (visible : character ≠ '\x00')
      (least : 1 ≤ digits.length) (most : digits.length ≤ 7)
      (denotes : Denotes 10 character.toNat digits) :
      Spells character ('&' :: '#' :: (digits ++ [';']))
  | hexadecimal {character marker : Char} {digits : Text} (visible : character ≠ '\x00')
      (marked : marker = 'x' ∨ marker = 'X') (least : 1 ≤ digits.length)
      (most : digits.length ≤ 6) (denotes : Denotes 16 character.toNat digits) :
      Spells character ('&' :: '#' :: marker :: (digits ++ [';']))
  | named {name : String} {character : Char} (listed : (name, character) ∈ table) :
      Spells character ('&' :: (name.toList ++ [';']))

theorem terminatedRun?_eq_some_iff {accepts : Char → Bool} {least most : Nat} {run : Text}
    (ends : accepts ';' = false) :
    terminatedRun? accepts least most text = some run ↔
      (∃ rest, text = run ++ ';' :: rest) ∧ (∀ character ∈ run, accepts character) ∧
        least ≤ run.length ∧ run.length ≤ most := by
  have split : text.takeWhile accepts ++ text.drop (text.takeWhile accepts).length = text :=
    List.prefix_iff_eq_append.mp (List.takeWhile_prefix accepts)
  unfold terminatedRun?
  constructor
  · intro read
    simp only [Option.ite_none_right_eq_some, Option.some.injEq] at read
    obtain ⟨⟨long, short, closed⟩, rfl⟩ := read
    obtain ⟨rest, dropped⟩ := List.head?_eq_some_iff.mp closed
    refine ⟨⟨rest, ?_⟩, ?_, long, short⟩
    · rw [← dropped, split]
    · exact List.all_eq_true.mp List.all_takeWhile
  · rintro ⟨⟨rest, rfl⟩, accepted, long, short⟩
    have taken : (run ++ ';' :: rest).takeWhile accepts = run := by
      rw [List.takeWhile_append_of_pos accepted, List.takeWhile_cons, ends]
      simp
    simp [taken, long, short]

/-! ## The three kinds of references -/

theorem read?_hexadecimal {marker : Char} (marked : marker = 'x' ∨ marker = 'X') (rest : Text) :
    read? ('#' :: marker :: rest) =
      (terminatedRun? isHexDigit 1 6 rest).bind fun digits =>
        (numbered? (number 16 digits)).map (·, digits.length + 3) := by
  rw [read?, if_pos marked]
  simp [Option.map_eq_bind]

theorem read?_decimal {first : Char} (unmarked : ¬ (first = 'x' ∨ first = 'X')) (rest : Text) :
    read? ('#' :: first :: rest) =
      (terminatedRun? Char.isDigit 1 7 (first :: rest)).bind fun digits =>
        (numbered? (number 10 digits)).map (·, digits.length + 2) := by
  rw [read?, if_neg unmarked]
  simp [Option.map_eq_bind]

theorem read?_named {initial : Char} (alphabetic : initial.isAlpha) (rest : Text) :
    read? (initial :: rest) =
      (terminatedRun? Char.isAlphanum 1 31 rest).bind fun letters =>
        (named? (initial :: letters)).map (·, letters.length + 2) := by
  unfold read?
  split
  · rename_i split
    cases split
    cases alphabetic
  · rename_i split
    cases split
    rw [if_pos alphabetic]
    simp [Option.map_eq_bind]
  · rename_i empty
    cases empty

theorem read?_eq_none {initial : Char} (alphabetic : initial.isAlpha = false)
    (rest : Text) (bare : initial = '#' → rest = []) : read? (initial :: rest) = none := by
  unfold read?
  split
  · rename_i split
    cases split
    cases bare rfl
  · rename_i split
    cases split
    rw [alphabetic]
    rfl
  · rfl

/-! ## Reading what is written -/

theorem numbered?_toNat (visible : character ≠ '\x00') :
    numbered? character.toNat = some character := by
  have positive : character.toNat ≠ 0 := by
    intro zero
    have again := Char.ofNat_toNat character
    rw [zero] at again
    exact visible again.symm
  have valid : character.toNat.isValidChar := character.valid
  simp [numbered?, positive, valid, Char.ofNat_toNat]

theorem terminatedRun?_digits {least most : Nat} {accepts : Char → Bool}
    (ends : accepts ';' = false) (accepted : ∀ digit ∈ digits, accepts digit)
    (long : least ≤ digits.length) (short : digits.length ≤ most) (rest : Text) :
    terminatedRun? accepts least most (digits ++ [';'] ++ rest) = some digits :=
  (terminatedRun?_eq_some_iff ends).mpr
    ⟨⟨rest, by rw [List.append_assoc, List.singleton_append]⟩, accepted, long, short⟩

/-- Every way to write a character with an ampersand is read as that character, whatever comes
behind it. -/
theorem read?_of_spells {reference : Text} (spelled : Spells character ('&' :: reference))
    (rest : Text) : read? (reference ++ rest) = some (character, reference.length) := by
  generalize piece : '&' :: reference = written at spelled
  cases spelled with
  | verbatim plain =>
      cases piece
      exact absurd rfl plain
  | @decimal _ digits visible least most denotes =>
      cases piece
      obtain ⟨formed, number⟩ := (denotes_iff (by decide)).mp denotes
      have decimal : ∀ digit ∈ digits, digit.isDigit :=
        fun digit member => isDigit_iff.mpr (formed digit member)
      have run := terminatedRun?_digits (by decide) decimal least most rest
      obtain ⟨first, others, rfl⟩ := List.exists_cons_of_length_pos least
      have unmarked : ¬ (first = 'x' ∨ first = 'X') := by
        have digit := decimal first List.mem_cons_self
        rintro (rfl | rfl)
        · cases digit
        · cases digit
      simp only [List.cons_append] at run ⊢
      rw [read?_decimal unmarked, run, Option.bind_some, number, numbered?_toNat visible]
      simp
  | @hexadecimal _ marker digits visible marked least most denotes =>
      cases piece
      obtain ⟨formed, number⟩ := (denotes_iff (by decide)).mp denotes
      have run := terminatedRun?_digits (by decide) (fun digit member => (formed digit member).1)
        least most rest
      simp only [List.cons_append] at run ⊢
      rw [read?_hexadecimal marked, run, Option.bind_some, number, numbered?_toNat visible]
      simp
  | @named name _ listed =>
      cases piece
      have formed := isName_of_mem_table _ listed
      have denoted := named?_of_mem_table _ listed
      simp only at formed denoted
      cases shape : name.toList with
      | nil =>
          rw [shape] at formed
          cases formed
      | cons initial letters =>
          rw [shape] at formed denoted
          simp only [isName, Bool.and_eq_true, List.all_eq_true, decide_eq_true_eq] at formed
          obtain ⟨⟨⟨alphabetic, alphanumeric⟩, least⟩, most⟩ := formed
          have run := terminatedRun?_digits (by decide) alphanumeric least most rest
          rw [List.cons_append, List.cons_append, read?_named alphabetic, run, Option.bind_some,
            denoted]
          simp

theorem numbered?_eq_some {number : Nat} (denoted : numbered? number = some character)
    (visible : character ≠ '\ufffd') : character.toNat = number ∧ character ≠ '\x00' := by
  unfold numbered? at denoted
  split_ifs at denoted with zero valid
  · exact absurd (Option.some.inj denoted).symm visible
  · cases denoted
    have same : (Char.ofNat number).toNat = number := by
      rw [Char.ofNat, dif_pos valid]
      rfl
    refine ⟨same, fun nul => zero ?_⟩
    rw [← same, nul]
    rfl

/-- What is read with digits is a way to write the character that they denote. -/
theorem denotes_of_read {accepts : Char → Bool} {least most extra length : Nat}
    (small : base ≤ 16) (ends : accepts ';' = false)
    (formed : ∀ digit, accepts digit → isHexDigit digit ∧ digitValue digit < base)
    (read : ((terminatedRun? accepts least most text).bind fun digits =>
      (numbered? (number base digits)).map (·, digits.length + extra)) =
        some (character, length)) :
    ∃ digits rest, text = digits ++ [';'] ++ rest ∧ digits.length + extra = length ∧
      least ≤ digits.length ∧ digits.length ≤ most ∧
      (character ≠ '\ufffd' → character ≠ '\x00' ∧ Denotes base character.toNat digits) := by
  obtain ⟨digits, run, numbered⟩ := Option.bind_eq_some_iff.mp read
  obtain ⟨denoted, found, same⟩ := Option.map_eq_some_iff.mp numbered
  obtain ⟨⟨rest, rfl⟩, accepted, long, short⟩ := (terminatedRun?_eq_some_iff ends).mp run
  cases same
  refine ⟨digits, rest, by simp, rfl, long, short, fun visible => ?_⟩
  obtain ⟨value, nul⟩ := numbered?_eq_some found visible
  have digitsFormed := fun digit member => formed digit (accepted digit member)
  exact ⟨nul, (denotes_iff small).mpr ⟨digitsFormed, value.symm⟩⟩

theorem isHexDigit_lt (digit : Char) (hexadecimal : isHexDigit digit) :
    isHexDigit digit ∧ digitValue digit < 16 :=
  ⟨hexadecimal, forall_isHexDigit (fun digit => digitValue digit < 16) (by decide)
    hexadecimal⟩

/-- Whatever is read as a character is a way to write it. The replacement character apart: it is
also read for the number zero. -/
theorem exists_of_read? {length : Nat} (read : read? text = some (character, length)) :
    ∃ reference rest, text = reference ++ rest ∧ reference.length = length ∧
      (character ≠ '\ufffd' → Spells character ('&' :: reference)) := by
  rcases text with _ | ⟨initial, text⟩
  · cases read
  by_cases alphabetic : initial.isAlpha
  · rw [read?_named alphabetic] at read
    obtain ⟨letters, run, named⟩ := Option.bind_eq_some_iff.mp read
    obtain ⟨denoted, found, same⟩ := Option.map_eq_some_iff.mp named
    obtain ⟨⟨rest, rfl⟩, -⟩ := (terminatedRun?_eq_some_iff (by decide)).mp run
    cases same
    obtain ⟨name, spelled, listed⟩ := mem_table_of_named? found
    refine ⟨initial :: letters ++ [';'], rest, by simp, by simp, fun _ => ?_⟩
    rw [spelled]
    exact .named listed
  by_cases numeric : initial = '#' ∧ text ≠ []
  · obtain ⟨rfl, solid⟩ := numeric
    obtain ⟨first, others, rfl⟩ := List.exists_cons_of_ne_nil solid
    by_cases marked : first = 'x' ∨ first = 'X'
    · rw [read?_hexadecimal marked] at read
      obtain ⟨digits, rest, rfl, rfl, long, short, denotes⟩ :=
        denotes_of_read (by decide) (by decide) isHexDigit_lt read
      exact ⟨'#' :: first :: (digits ++ [';']), rest, by simp, by simp, fun visible =>
        .hexadecimal (denotes visible).1 marked long short (denotes visible).2⟩
    · rw [read?_decimal marked] at read
      obtain ⟨digits, rest, split, rfl, long, short, denotes⟩ :=
        denotes_of_read (by decide) (by decide) (fun digit => isDigit_iff.mp) read
      exact ⟨'#' :: (digits ++ [';']), rest, by simp [split], by simp, fun visible =>
        .decimal (denotes visible).1 long short (denotes visible).2⟩
  · have bare : initial = '#' → text = [] := by
      intro mark
      by_contra solid
      exact numeric ⟨mark, solid⟩
    rw [read?_eq_none (by simpa using alphabetic) text bare] at read
    cases read

/-! ## Decoding -/

theorem decodeFrom_skip (front rest : Text) :
    decodeFrom front.length (front ++ rest) = decode rest := by
  induction front with
  | nil => rfl
  | cons character front induction => exact induction

theorem decode_cons_of_ne (plain : character ≠ '&') (rest : Text) :
    decode (character :: rest) = character :: decode rest := by
  rw [decode, decodeFrom, if_neg plain]
  rfl

theorem decode_of_read? {reference : Text}
    (read : read? (reference ++ rest) = some (character, reference.length)) :
    decode ('&' :: (reference ++ rest)) = character :: decode rest := by
  rw [decode, decodeFrom, if_pos rfl]
  simp only [read, decodeFrom_skip]

/-- What is written for a character is decoded to it, and what comes behind it is decoded as if it
stood alone. -/
theorem decode_spells {piece : Text} (spelled : Spells character piece) (rest : Text) :
    decode (piece ++ rest) = character :: decode rest := by
  have reference : ∀ reference, piece = '&' :: reference →
      decode (piece ++ rest) = character :: decode rest := by
    rintro reference rfl
    exact decode_of_read? (read?_of_spells spelled rest)
  cases spelled with
  | verbatim plain => exact decode_cons_of_ne plain rest
  | decimal => exact reference _ rfl
  | hexadecimal => exact reference _ rfl
  | named => exact reference _ rfl

theorem decode_pieces {pieces : List Text} (spelled : List.Forall₂ Spells text pieces)
    (rest : Text) : decode (pieces.flatten ++ rest) = text ++ decode rest := by
  induction spelled with
  | nil => rfl
  | cons first _ induction =>
      rw [List.flatten_cons, List.append_assoc, decode_spells first, induction, List.cons_append]

/-! ## Where decoding may be cut -/

/-- Whether a character stands in no reference behind its ampersand. -/
def isOutside (character : Char) : Bool :=
  !(character.isAlphanum || character = '#' || character = ';')

theorem terminatedRun?_before {accepts : Char → Bool} {least most : Nat}
    (ends : accepts character = false) (unended : character ≠ ';') (text rest : Text) :
    terminatedRun? accepts least most (text ++ character :: rest) =
      terminatedRun? accepts least most text := by
  have within : (text.takeWhile accepts).length ≤ text.length :=
    (List.takeWhile_sublist _).length_le
  unfold terminatedRun?
  simp only [Text.takeWhile_before ends, List.drop_append_of_le_length within]
  cases text.drop (text.takeWhile accepts).length with
  | nil => simp [unended]
  | cons next others => rfl

theorem read?_before (outside : isOutside character) (text rest : Text) :
    read? (text ++ character :: rest) = read? text := by
  simp only [isOutside, Char.isAlphanum, Bool.not_eq_true', Bool.or_eq_false_iff,
    decide_eq_false_iff_not] at outside
  obtain ⟨⟨⟨noLetter, noDigit⟩, noNumber⟩, noEnd⟩ := outside
  have noHexDigit : isHexDigit character = false := by
    by_contra hexadecimal
    have both := forall_isHexDigit (fun digit => digit.isAlpha ∨ digit.isDigit) (by decide)
      (by simpa using hexadecimal)
    simp [noLetter, noDigit] at both
  have unmarked : ¬ (character = 'x' ∨ character = 'X') := by
    rintro (rfl | rfl)
    · cases noLetter
    · cases noLetter
  rcases text with _ | ⟨initial, text⟩
  · exact read?_eq_none noLetter rest fun number => absurd number noNumber
  by_cases alphabetic : initial.isAlpha
  · have noAlphanum : character.isAlphanum = false := by simp [Char.isAlphanum, noLetter, noDigit]
    rw [List.cons_append, read?_named alphabetic, read?_named alphabetic,
      terminatedRun?_before noAlphanum noEnd]
  have nonalphabetic : initial.isAlpha = false := by simpa using alphabetic
  by_cases number : initial = '#'
  · subst number
    rcases text with _ | ⟨first, text⟩
    · rw [List.singleton_append, read?_decimal unmarked,
        ← List.nil_append (character :: rest), terminatedRun?_before noDigit noEnd,
        read?_eq_none rfl [] fun _ => rfl]
      rfl
    · by_cases marked : first = 'x' ∨ first = 'X'
      · rw [List.cons_append, List.cons_append, read?_hexadecimal marked,
          read?_hexadecimal marked, terminatedRun?_before noHexDigit noEnd]
      · rw [List.cons_append, List.cons_append, read?_decimal marked, read?_decimal marked,
          ← List.cons_append, terminatedRun?_before noDigit noEnd]
  · rw [List.cons_append, read?_eq_none nonalphabetic _ (absurd · number),
      read?_eq_none nonalphabetic _ (absurd · number)]

theorem decodeFrom_before (outside : isOutside character) (rest : Text) {skip : Nat}
    (within : skip ≤ text.length) :
    decodeFrom skip (text ++ character :: rest) =
      decodeFrom skip text ++ decode (character :: rest) := by
  induction text generalizing skip with
  | nil =>
      obtain rfl : skip = 0 := Nat.le_zero.mp within
      rfl
  | cons first text induction =>
      rw [List.cons_append]
      cases skip with
      | succ skip => exact induction (Nat.le_of_succ_le_succ within)
      | zero =>
          rw [decodeFrom, decodeFrom]
          split_ifs with ampersand
          · rw [read?_before outside]
            cases read : read? text with
            | none => exact congrArg (first :: ·) (induction (Nat.zero_le _))
            | some found =>
                obtain ⟨reference, others, rfl, length, -⟩ := exists_of_read? read
                have short : found.2 ≤ (reference ++ others).length := by
                  rw [List.length_append]
                  omega
                exact congrArg (found.1 :: ·) (induction short)
          · exact congrArg (first :: ·) (induction (Nat.zero_le _))

/-- No reference reaches over a character that can stand in none. -/
theorem decode_before (outside : isOutside character) (text rest : Text) :
    decode (text ++ character :: rest) = decode text ++ decode (character :: rest) :=
  decodeFrom_before outside rest (Nat.zero_le _)

/-! ## The ends of a decoded text -/

/-- A decoded character is the one that some piece of the text spells. An ampersand may also stand
for itself, and the replacement character for the number zero. -/
theorem exists_piece (first : Char) (others : Text) :
    ∃ denoted piece rest, first :: others = piece ++ rest ∧ piece ≠ [] ∧
      decode (first :: others) = denoted :: decode rest ∧
      (denoted ≠ '&' → denoted ≠ '\ufffd' → Spells denoted piece) := by
  by_cases ampersand : first = '&'
  · subst ampersand
    cases read : read? others with
    | none =>
        refine ⟨'&', ['&'], others, rfl, by simp, ?_, absurd rfl⟩
        rw [decode, decodeFrom, if_pos rfl, read]
        rfl
    | some found =>
        obtain ⟨reference, rest, rfl, length, spelled⟩ := exists_of_read? read
        have read' : read? (reference ++ rest) = some (found.1, reference.length) := by
          rw [read, length]
        exact ⟨found.1, '&' :: reference, rest, rfl, by simp, decode_of_read? read',
          fun _ => spelled⟩
  · exact ⟨first, [first], others, rfl, by simp, decode_cons_of_ne ampersand others,
      fun plain _ => .verbatim plain⟩

theorem decode_eq_nil_iff : decode text = [] ↔ text = [] := by
  constructor
  · intro nothing
    rcases text with _ | ⟨first, others⟩
    · rfl
    · obtain ⟨denoted, piece, rest, -, -, decoded, -⟩ := exists_piece first others
      rw [nothing] at decoded
      cases decoded
  · rintro rfl
    rfl

variable {denoted : Char} {decoded : Text}

/-- The first decoded character is spelled at the start of the text. -/
theorem spells_of_decode_cons (starts : decode text = denoted :: decoded)
    (plain : denoted ≠ '&') (visible : denoted ≠ '\ufffd') :
    ∃ piece, piece <+: text ∧ Spells denoted piece := by
  rcases text with _ | ⟨first, others⟩
  · cases starts
  obtain ⟨read, piece, rest, split, -, piecewise, spelled⟩ := exists_piece first others
  rw [piecewise] at starts
  cases starts
  exact ⟨piece, ⟨rest, split.symm⟩, spelled plain visible⟩

/-- The last decoded character is spelled at the end of the text. -/
theorem spells_of_decode_concat (ends : decode text = decoded ++ [denoted])
    (plain : denoted ≠ '&') (visible : denoted ≠ '\ufffd') :
    ∃ piece, piece <:+ text ∧ Spells denoted piece := by
  -- One piece is taken off the front at a time, down to the last one.
  induction length : text.length using Nat.strong_induction_on generalizing text decoded with
  | _ number induction =>
      rcases text with _ | ⟨first, others⟩
      · simp [decode, decodeFrom] at ends
      obtain ⟨read, piece, rest, split, solid, piecewise, spelled⟩ := exists_piece first others
      have positive : 0 < piece.length := List.length_pos_iff.mpr solid
      have total : number = piece.length + rest.length := by
        rw [← length, split, List.length_append]
      rw [piecewise] at ends
      rw [split]
      rcases decoded with _ | ⟨head, decoded⟩
      · obtain ⟨rfl, nothing⟩ := List.cons.inj ends
        obtain rfl := decode_eq_nil_iff.mp nothing
        exact ⟨piece, ⟨[], by simp⟩, spelled plain visible⟩
      · obtain ⟨-, others⟩ := List.cons.inj ends
        obtain ⟨last, suffix, spelledLast⟩ := induction rest.length (by omega) others rfl
        exact ⟨last, suffix.trans (List.suffix_append piece rest), spelledLast⟩

/-! ## Whole texts -/

/-- Decoding undoes every way to write the characters of a text, each as itself or as a reference.
What it has decoded is not read again: it stays as it is in front of whatever comes behind it, and it
is what a call of the element writes. A text without ampersands has nothing to decode, so it makes no
difference that it is not looked at. -/
theorem decode_spelling {pieces : List Text} (spelled : List.Forall₂ Spells text pieces) :
    decode pieces.flatten = text ∧
      (∀ rest, decode (pieces.flatten ++ rest) = text ++ decode rest) ∧
      (∀ plain, '&' ∉ plain → decode plain = plain) ∧
      (∀ content, Call.decoded content = decode content) ∧
      ∀ hasContent count index,
        Call.argument? hasContent count index (.text pieces.flatten) =
          some (Call.trimmedAt index count text).quote := by
  have whole : decode pieces.flatten = text := by
    have decoded := decode_pieces spelled []
    rwa [show decode [] = [] from rfl, List.append_nil, List.append_nil] at decoded
  refine ⟨whole, decode_pieces spelled, fun _ => decode_of_not_mem, Call.decoded_eq, ?_⟩
  intro hasContent count index
  rw [Call.argument?, Call.decoded_eq, whole]

/-- The decoded text is itself the reference `&lt;`, between the first and the last code point that
can be written. -/
theorem decode_spelling_sample :
    let text : Text := ['\x01', '&', 'l', 't', ';', Char.ofNat 0x10FFFF]
    let pieces : List Text := ["&#x1;".toList, "&amp;".toList, ['l'], "&#X074;".toList,
      "&#0000059;".toList, "&#x10fFfF;".toList]
    List.Forall₂ Spells text pieces ∧ decode pieces.flatten = text ∧ decode text ≠ text := by
  intro text pieces
  have first : Spells '\x01' "&#x1;".toList :=
    @Spells.hexadecimal _ 'x' "1".toList (by decide) (by decide) (by decide) (by decide)
      (denotes_of_all (by decide) (by decide) (by decide))
  have ampersand : Spells '&' "&amp;".toList := @Spells.named "amp" _ (by decide)
  have letter : Spells 't' "&#X074;".toList :=
    @Spells.hexadecimal _ 'X' "074".toList (by decide) (by decide) (by decide) (by decide)
      (denotes_of_all (by decide) (by decide) (by decide))
  have semicolon : Spells ';' "&#0000059;".toList :=
    @Spells.decimal _ "0000059".toList (by decide) (by decide) (by decide)
      (denotes_of_all (by decide) (by decide) (by decide))
  have last : Spells (Char.ofNat 0x10FFFF) "&#x10fFfF;".toList :=
    @Spells.hexadecimal _ 'x' "10fFfF".toList (by decide) (by decide) (by decide) (by decide)
      (denotes_of_all (by decide) (by decide) (by decide))
  have spelled : List.Forall₂ Spells text pieces :=
    .cons first (.cons ampersand (.cons (.verbatim (by decide)) (.cons letter
      (.cons semicolon (.cons last .nil)))))
  exact ⟨spelled, (decode_spelling spelled).1, by decide⟩

end ElementScript.Text.Reference
