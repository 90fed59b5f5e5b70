import Mathlib.Data.Nat.Digits.Defs
import Zowex.Proofs.HexText
import Zowex.Spec.FromStr

/-! Integer literals of JSON read as an integral type. Every literal goes through a `long long`
that takes the nearest value for one out of its range. -/

namespace Zowex.zjson

/-- A minus sign or none, and digits of which the first is no zero, unless it is the only one. -/
structure IntegerLiteral where
  negative : Bool
  digits : List Char
  digits_ne : digits ≠ []
  digits_dec : ∀ c ∈ digits, c ∈ "0123456789".toList
  leading_zero : digits.head? = some '0' → digits = ['0']

namespace IntegerLiteral

variable (cs : Charset) (literal : IntegerLiteral)

def text : Bytes :=
  (if literal.negative then [cs.code '-'] else []) ++ literal.digits.map cs.code

def magnitude : ℕ :=
  Nat.ofDigits 10 (literal.digits.map fun c => c.toNat - '0'.toNat).reverse

def value : ℤ := if literal.negative then -literal.magnitude else literal.magnitude

end IntegerLiteral

/-- The services know the text for a number, and return it as it is written. -/
structure ParsesNumber {Handle : Type} (svc : Services Handle) (text : Bytes) : Prop where
  initialized : svc.ZJSMINIT = true
  root : ∃ handle, svc.ZJSMPARS text = some handle ∧
    svc.ZJSNGJST handle = some .HWTJ_NUMBER_TYPE ∧ svc.ZJSMGVAL handle = some text

/-- The literal's own value where the type has it, and an error elsewhere. -/
def ReadsExactly (cs : Charset) {Handle : Type} (svc : Services Handle) (target : Target)
    (literal : IntegerLiteral) : Prop :=
  from_str cs svc target (literal.text cs) =
    if target.lowest ≤ literal.value ∧ literal.value ≤ target.highest then some literal.value
    else none

/-- `strtoll` reads the value, or the limit that it takes instead is outside of the type too. -/
def Unsaturated (target : Target) (value : ℤ) : Prop :=
  (LLONG_MAX < value → target.highest < LLONG_MAX) ∧
    (value < LLONG_MIN → LLONG_MIN < target.lowest)

section

variable (cs : Charset)

/-! The characters of a literal. -/

theorem dec_printable {c : Char} (h : c ∈ "0123456789".toList) : c ∈ printable := by
  revert c
  decide

theorem dec_digit_value {c : Char} (h : c ∈ "0123456789".toList) :
    cs.hex_digit (cs.code c) = some (c.toNat - '0'.toNat) := by
  have table : ∀ c ∈ "0123456789".toList,
      zds.hex_table.lookup c = some (c.toNat - '0'.toNat) := by decide
  rw [zds.hex_digit_code cs (dec_printable h), table c h]

theorem is_dec_digit_code {c : Char} (h : c ∈ "0123456789".toList) :
    is_dec_digit cs (cs.code c) = true :=
  decide_eq_true (List.mem_map_of_mem h)

theorem mem_text {literal : IntegerLiteral} {c : UInt8} (h : c ∈ literal.text cs) :
    ∃ a ∈ '-' :: "0123456789".toList, c = cs.code a := by
  rcases List.mem_append.mp h with sign | digit
  · cases hneg : literal.negative
    · simp [hneg] at sign
    · rw [hneg, if_pos rfl, List.mem_singleton] at sign
      exact ⟨'-', List.mem_cons_self, sign⟩
  · obtain ⟨a, ha, rfl⟩ := List.mem_map.mp digit
    exact ⟨a, List.mem_cons_of_mem '-' (literal.digits_dec a ha), rfl⟩

theorem literal_printable : ∀ a ∈ '-' :: "0123456789".toList, a ∈ printable ∧ a ≠ ' ' := by
  decide

/-- No character of a literal makes it a floating-point number. -/
theorem not_mem_text (literal : IntegerLiteral) {b : Char} (hb : b ∈ printable)
    (other : b ∉ '-' :: "0123456789".toList) : cs.code b ∉ literal.text cs := by
  intro inside
  obtain ⟨a, ha, same⟩ := mem_text cs inside
  exact cs.code_ne hb (literal_printable a ha).1 (fun e => other (e ▸ ha)) same

theorem text_no_space {literal : IntegerLiteral} {c : UInt8} (h : c ∈ literal.text cs) :
    cs.isspace c = false := by
  obtain ⟨a, ha, rfl⟩ := mem_text cs h
  exact cs.isspace_printable a (literal_printable a ha).1 (literal_printable a ha).2

/-! `strtoll` on a literal. -/

theorem strtoll_fold {digits : List Char} (h : ∀ c ∈ digits, c ∈ "0123456789".toList) :
    (digits.map cs.code).foldl (fun acc c => acc * 10 + (cs.hex_digit c).getD 0) 0 =
      Nat.ofDigits 10 (digits.map fun c => c.toNat - '0'.toNat).reverse := by
  induction digits using List.reverseRecOn with
  | nil => rfl
  | append_singleton digits c ih =>
    rw [List.forall_mem_append] at h
    have hc := dec_digit_value cs (h.2 c (List.mem_singleton.mpr rfl))
    rw [List.map_append, List.foldl_append, ih h.1]
    simp only [List.map_cons, List.map_nil, List.foldl_cons, List.foldl_nil, List.map_append,
      List.reverse_append, List.reverse_singleton, List.singleton_append, Nat.ofDigits_cons,
      hc, Option.getD_some]
    ring

/-- The sign of a literal, with its digits. -/
theorem strtoul_sign_text (literal : IntegerLiteral) :
    strtoul_sign cs (literal.text cs) =
      (if literal.negative then 1 else 0, literal.negative) := by
  cases hneg : literal.negative with
  | true => simp [IntegerLiteral.text, hneg, strtoul_sign]
  | false =>
    obtain ⟨a, digits, hdigits⟩ := List.exists_cons_of_ne_nil literal.digits_ne
    have ha : a ∈ "0123456789".toList := literal.digits_dec a (by simp [hdigits])
    have minus : cs.code a ≠ cs.code '-' :=
      cs.code_ne (dec_printable ha) (by decide) (by rintro rfl; revert ha; decide)
    have plus : cs.code a ≠ cs.code '+' :=
      cs.code_ne (dec_printable ha) (by decide) (by rintro rfl; revert ha; decide)
    simp [IntegerLiteral.text, hneg, hdigits, strtoul_sign, minus, plus]

theorem drop_sign_text (literal : IntegerLiteral) :
    (literal.text cs).drop (if literal.negative then 1 else 0) = literal.digits.map cs.code := by
  cases hneg : literal.negative <;> simp [IntegerLiteral.text, hneg]

/-- All of a literal is read, and a value out of range is replaced by the limit. -/
theorem strtoll_text (literal : IntegerLiteral) :
    strtoll cs (literal.text cs) =
      (max LLONG_MIN (min LLONG_MAX literal.value), (literal.text cs).length) := by
  have blanks : (literal.text cs).takeWhile cs.isspace = [] := by
    rw [List.takeWhile_eq_nil_iff]
    intro nonempty
    simp [text_no_space cs (List.getElem_mem nonempty)]
  have rest : (literal.text cs).dropWhile cs.isspace = literal.text cs := by
    have h := List.takeWhile_append_dropWhile (p := cs.isspace) (l := literal.text cs)
    rwa [blanks] at h
  have digits : (literal.digits.map cs.code).takeWhile (is_dec_digit cs) =
      literal.digits.map cs.code := by
    rw [List.takeWhile_eq_self_iff, List.forall_mem_map]
    exact fun c hc => is_dec_digit_code cs (literal.digits_dec c hc)
  have nonempty : ¬ literal.digits.map cs.code = [] := by simp [literal.digits_ne]
  have length : (literal.text cs).length =
      0 + (if literal.negative then 1 else 0) + (literal.digits.map cs.code).length := by
    cases hneg : literal.negative <;> simp [IntegerLiteral.text, hneg, Nat.add_comm]
  unfold strtoll
  rw [blanks, rest]
  dsimp only
  rw [strtoul_sign_text]
  dsimp only
  rw [drop_sign_text, digits, if_neg nonempty, strtoll_fold cs literal.digits_dec, length]
  rfl

theorem number_to_value_text {Handle : Type} (svc : Services Handle) (literal : IntegerLiteral) :
    number_to_value cs svc (literal.text cs) =
      .ok (.integer (max LLONG_MIN (min LLONG_MAX literal.value))) := by
  have whole : stopped_early (literal.text cs) (literal.text cs).length = false := by
    have nonempty : literal.text cs ≠ [] := by
      simp [IntegerLiteral.text, literal.digits_ne]
    simp [stopped_early, nonempty]
  unfold number_to_value
  rw [if_neg, strtoll_text]
  · dsimp only
    rw [whole]
    rfl
  · simp only [not_or]
    exact ⟨not_mem_text cs literal (by decide) (by decide),
      not_mem_text cs literal (by decide) (by decide),
      not_mem_text cs literal (by decide) (by decide)⟩

theorem from_str_text {Handle : Type} {svc : Services Handle} (target : Target)
    {literal : IntegerLiteral} (parses : ParsesNumber svc (literal.text cs)) :
    from_str cs svc target (literal.text cs) =
      target.deserialize (.integer (max LLONG_MIN (min LLONG_MAX literal.value))) := by
  obtain ⟨handle, root, type, text⟩ := parses.root
  have value : from_str_value cs svc (literal.text cs) =
      .ok (.integer (max LLONG_MIN (min LLONG_MAX literal.value))) := by
    simp [from_str_value, parses.initialized, root, MAX_JSON_DEPTH, json_handle_to_value, type,
      text, checked, number_to_value_text, bind, Except.bind]
  rw [from_str, value]
  rfl

end

theorem filter_some_eq (i : ℤ) (p : ℤ → Prop) [DecidablePred p] :
    (some i).filter (fun j => p j) = if p i then some i else none := by
  simp [Option.filter_some]

/-- A check of the upper limit after `as_uint64`. -/
theorem as_uint64_filter (i highest : ℤ) :
    (Value.as_uint64 (.integer i)).filter (fun val => val ≤ highest) =
      if 0 ≤ i ∧ i ≤ highest then some i else none := by
  unfold Value.as_uint64
  dsimp only
  by_cases negative : i < 0
  · rw [if_pos negative, if_neg (by omega)]
    rfl
  · rw [if_neg negative, filter_some_eq]
    exact if_congr (by omega) rfl rfl

/-- An integer as a target reads it. -/
theorem deserialize_integer (target : Target) {i : ℤ} (low : LLONG_MIN ≤ i)
    (high : i ≤ LLONG_MAX) :
    target.deserialize (.integer i) =
      if target.lowest ≤ i ∧ i ≤ target.highest then some i else none := by
  cases target with
  | int =>
    refine (filter_some_eq i fun j => -2 ^ 31 ≤ j ∧ j < 2 ^ 31).trans (if_congr ?_ rfl rfl)
    exact and_congr_right fun _ => Int.le_sub_one_iff.symm
  | unsigned_int => exact as_uint64_filter i _
  | long_long => exact (if_pos ⟨low, high⟩).symm
  | unsigned_long_long =>
    by_cases negative : i < 0
    · exact (if_pos negative).trans (if_neg fun h => absurd h.1 (not_le.mpr negative)).symm
    · have inside : i ≤ 2 ^ 64 - 1 := high.trans (by decide)
      exact (if_neg negative).trans (if_pos ⟨not_lt.mp negative, inside⟩).symm
  | size_t largest => exact as_uint64_filter i _

theorem Target.lowest_bounds (target : Target) :
    LLONG_MIN ≤ target.lowest ∧ target.lowest ≤ LLONG_MAX ∧ LLONG_MIN ≤ target.highest := by
  cases target with
  | size_t largest =>
    have positive : (0 : ℤ) ≤ largest := Int.natCast_nonneg largest
    exact ⟨(by decide : LLONG_MIN ≤ 0), (by decide : 0 ≤ LLONG_MAX),
      le_trans (by decide : LLONG_MIN ≤ 0) positive⟩
  | int | unsigned_int | long_long | unsigned_long_long => decide

/-- The number read is right unless the limit that stands for a larger or smaller one belongs to
the type. -/
theorem reads_exactly_iff (cs : Charset) {Handle : Type} {svc : Services Handle} (target : Target)
    {literal : IntegerLiteral} (parses : ParsesNumber svc (literal.text cs)) :
    ReadsExactly cs svc target literal ↔ Unsaturated target literal.value := by
  have order : LLONG_MIN < LLONG_MAX := by decide
  obtain ⟨lowest, least, greatest⟩ := target.lowest_bounds
  unfold ReadsExactly Unsaturated
  rw [from_str_text cs target parses]
  rcases lt_or_ge LLONG_MAX literal.value with above | not_above
  · rw [min_eq_left above.le, max_eq_right order.le,
      deserialize_integer target order.le le_rfl]
    by_cases highest : target.highest < LLONG_MAX
    · rw [if_neg fun h => absurd h.2 (not_le.mpr highest),
        if_neg fun h => absurd h.2 (not_le.mpr (highest.trans above))]
      exact iff_of_true rfl ⟨fun _ => highest, fun below => absurd (order.trans above) below.asymm⟩
    · rw [if_pos ⟨least, not_lt.mp highest⟩]
      refine iff_of_false ?_ fun h => highest (h.1 above)
      split_ifs
      · simp [above.ne]
      · simp
  · rw [min_eq_right not_above]
    rcases lt_or_ge literal.value LLONG_MIN with below | not_below
    · rw [max_eq_left below.le, deserialize_integer target le_rfl order.le]
      by_cases smallest : LLONG_MIN < target.lowest
      · rw [if_neg fun h => absurd h.1 (not_le.mpr smallest),
          if_neg fun h => absurd h.1 (not_le.mpr (below.trans smallest))]
        exact iff_of_true rfl ⟨fun above => absurd not_above above.not_ge, fun _ => smallest⟩
      · rw [if_pos ⟨not_lt.mp smallest, greatest⟩]
        refine iff_of_false ?_ fun h => smallest (h.2 below)
        split_ifs
        · simp [below.ne']
        · simp
    · rw [max_eq_right not_below, deserialize_integer target not_below not_above]
      exact iff_of_true rfl
        ⟨fun above => absurd not_above above.not_ge, fun below => absurd not_below below.not_ge⟩

/-- Services that take every text for a number. -/
def number_services : Services Bytes where
  ZJSMINIT := true
  ZJSMPARS := some
  ZJSNGJST := fun _ => some .HWTJ_NUMBER_TYPE
  ZJSMGVAL := some
  ZJSMGBOV := fun _ => none
  ZJSMGNUE := fun _ => none
  ZJSMGAEN := fun _ _ => none
  ZJSMGOEN := fun _ _ => none
  strtod := fun _ => (.nan, 0)

theorem number_services_parse (text : Bytes) : ParsesNumber number_services text :=
  ⟨rfl, text, rfl, rfl, rfl⟩

/-- `2 ^ 63` and its negation. -/
def above_long_long (negative : Bool) : IntegerLiteral where
  negative := negative
  digits := "9223372036854775808".toList
  digits_ne := by decide
  digits_dec := by decide
  leading_zero := by decide

theorem reads_exactly_iff_above :
    ReadsExactly ibm1047 number_services .int (above_long_long false) ↔
      Unsaturated .int (above_long_long false).value :=
  reads_exactly_iff ibm1047 .int (number_services_parse _)

/-- The value of an `unsigned long long` that no `long long` has is read as another one. -/
theorem unsigned_saturated :
    (above_long_long false).value = 2 ^ 63 ∧
      ¬ ReadsExactly ibm1047 number_services .unsigned_long_long (above_long_long false) := by
  refine ⟨by decide +kernel, ?_⟩
  unfold ReadsExactly
  rw [from_str_text ibm1047 .unsigned_long_long (number_services_parse _)]
  decide +kernel

end Zowex.zjson
