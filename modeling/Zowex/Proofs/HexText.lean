import Mathlib.Data.List.TakeWhile
import Zowex.Spec.DataSets
import Zowex.Proofs.JsonString

/-! The text of a number in base 16, as in the two kinds of e-tags, and its way back through
`strtoul`. -/

namespace Zowex.zds

open zjson

variable (cs : Charset)

theorem lookup_map {β : Type} {f : Char → UInt8} {l : List (Char × β)} {c : Char}
    (h : ∀ p ∈ l, f c = f p.1 ↔ c = p.1) :
    (l.map fun p => (f p.1, p.2)).lookup (f c) = l.lookup c := by
  induction l with
  | nil => rfl
  | cons p l ih =>
    rw [List.forall_mem_cons] at h
    have hsame : (f c == f p.1) = (c == p.1) := by
      rw [Bool.eq_iff_iff, beq_iff_eq, beq_iff_eq]
      exact h.1
    rw [List.map_cons, List.lookup_cons, List.lookup_cons, ih h.2, hsame]

/-- The digits of `hex_digit` before they are encoded. -/
def hex_table : List (Char × ℕ) :=
  "0123456789abcdef".toList.zipIdx ++ "ABCDEF".toList.zipIdx 10

theorem hex_digit_code {c : Char} (hc : c ∈ printable) :
    cs.hex_digit (cs.code c) = hex_table.lookup c := by
  have htable : ("0123456789abcdef".toList.map cs.code).zipIdx ++
      ("ABCDEF".toList.map cs.code).zipIdx 10 = hex_table.map fun p => (cs.code p.1, p.2) := rfl
  rw [Charset.hex_digit, htable]
  apply lookup_map
  intro p hp
  have hprintable : p.1 ∈ printable := by
    revert p
    decide
  exact cs.code_eq_iff (List.mem_append_left _ hc) (List.mem_append_left _ hprintable)

theorem digit_char {d : ℕ} (hd : d < 16) :
    d.digitChar ∈ printable ∧ hex_table.lookup d.digitChar = some d := by
  revert d
  decide

theorem hex_digit_char {d : ℕ} (hd : d < 16) : cs.hex_digit (cs.code d.digitChar) = some d := by
  rw [hex_digit_code cs (digit_char hd).1, (digit_char hd).2]

theorem hex_text_digits (n : ℕ) :
    ∃ digits : List ℕ, digits ≠ [] ∧ (∀ d ∈ digits, d < 16) ∧
      digits.foldl (fun acc d => acc * 16 + d) 0 = n ∧
      hex_text cs n = digits.map fun d => cs.code d.digitChar := by
  induction n using Nat.strong_induction_on with
  | _ n ih =>
    rw [hex_text, Nat.toDigits_eq_if (by decide)]
    by_cases hsmall : n < 16
    · rw [if_pos hsmall]
      exact ⟨[n], List.cons_ne_nil _ _, by simpa using hsmall, by simp, rfl⟩
    · rw [if_neg hsmall]
      obtain ⟨digits, -, hlt, hvalue, htext⟩ := ih (n / 16) (by omega)
      refine ⟨digits ++ [n % 16], by simp, ?_, ?_, ?_⟩
      · intro d hd
        rcases List.mem_append.mp hd with hd | hd
        · exact hlt d hd
        · rw [List.mem_singleton.mp hd]
          exact Nat.mod_lt n (by decide)
      · rw [List.foldl_append, hvalue, List.foldl_cons, List.foldl_nil]
        omega
      · rw [hex_text] at htext
        rw [List.map_append, htext, List.map_append]
        rfl

/-- The digits are those of `isxdigit`. -/
theorem hex_text_isSome {n : ℕ} {c : UInt8} (hc : c ∈ hex_text cs n) :
    (cs.hex_digit c).isSome = true := by
  obtain ⟨digits, -, hlt, -, htext⟩ := hex_text_digits cs n
  rw [htext] at hc
  obtain ⟨d, hd, rfl⟩ := List.mem_map.mp hc
  rw [hex_digit_char cs (hlt d hd)]
  rfl

/-- The value that the digits of a text stand for. -/
def hex_value (text : Bytes) : ℕ :=
  (text.filterMap cs.hex_digit).foldl (fun acc d => acc * 16 + d) 0

theorem hex_value_text (n : ℕ) : hex_value cs (hex_text cs n) = n := by
  obtain ⟨digits, -, hlt, hvalue, htext⟩ := hex_text_digits cs n
  have hdigits : (hex_text cs n).filterMap cs.hex_digit = digits := by
    rw [htext, List.filterMap_map]
    calc digits.filterMap (cs.hex_digit ∘ fun d => cs.code d.digitChar)
        = digits.filterMap some :=
          List.filterMap_congr fun d hd => hex_digit_char cs (hlt d hd)
      _ = digits := List.filterMap_some
  rw [hex_value, hdigits, hvalue]

theorem hex_text_injective : Function.Injective (hex_text cs) := by
  intro m n h
  rw [← hex_value_text cs m, h, hex_value_text]

theorem hex_text_ne_nil (n : ℕ) : hex_text cs n ≠ [] := by
  obtain ⟨digits, hne, -, -, htext⟩ := hex_text_digits cs n
  rw [htext]
  simpa using hne

theorem not_hex_digit {c : Char} (hc : c ∈ printable) (h : hex_table.lookup c = none) (n : ℕ) :
    cs.code c ∉ hex_text cs n := by
  intro hmem
  have hsome := hex_text_isSome cs hmem
  rw [hex_digit_code cs hc, h] at hsome
  cases hsome

/-- A digit in base 16 is one of these characters. -/
theorem hex_digit_isSome {c : UInt8} (h : (cs.hex_digit c).isSome = true) :
    ∃ p ∈ hex_table, c = cs.code p.1 := by
  obtain ⟨value, found⟩ := Option.isSome_iff_exists.mp h
  have table : ("0123456789abcdef".toList.map cs.code).zipIdx ++
      ("ABCDEF".toList.map cs.code).zipIdx 10 = hex_table.map fun p => (cs.code p.1, p.2) := rfl
  rw [Charset.hex_digit, table, List.lookup_eq_some_iff] at found
  obtain ⟨before, after, split, -⟩ := found
  have inside : (c, value) ∈ hex_table.map fun p => (cs.code p.1, p.2) :=
    split ▸ List.mem_append_right before List.mem_cons_self
  obtain ⟨p, hp, same⟩ := List.mem_map.mp inside
  exact ⟨p, hp, (congrArg Prod.fst same).symm⟩

theorem hex_table_printable : ∀ p ∈ hex_table, p.1 ∈ printable ∧ p.1 ≠ ' ' ∧
    p.1 ≠ '-' ∧ p.1 ≠ '+' ∧ p.1 ≠ 'x' ∧ p.1 ≠ 'X' := by
  decide

theorem hex_digit_ne {c : UInt8} (h : (cs.hex_digit c).isSome = true) {a : Char}
    (ha : a ∈ ['-', '+', 'x', 'X']) : c ≠ cs.code a := by
  obtain ⟨p, hp, rfl⟩ := hex_digit_isSome cs h
  obtain ⟨printed, -, minus, plus, x, X⟩ := hex_table_printable p hp
  refine cs.code_ne printed (by revert a; decide) ?_
  rintro rfl
  simp [minus, plus, x, X] at ha

theorem hex_digit_no_space {c : UInt8} (h : (cs.hex_digit c).isSome = true) :
    cs.isspace c = false := by
  obtain ⟨p, hp, rfl⟩ := hex_digit_isSome cs h
  exact cs.isspace_printable p.1 (hex_table_printable p hp).1 (hex_table_printable p hp).2.1

/-- `strtoul` of digits only: there is no blank, no sign and no `0x` at their start. -/
theorem strtoul16_digits {text : Bytes} (hall : ∀ c ∈ text, (cs.hex_digit c).isSome = true)
    (hne : text ≠ []) : strtoul16 cs text = (hex_value cs text, text.length) := by
  have hblanks : text.takeWhile cs.isspace = [] := by
    rcases text with _ | ⟨c, rest⟩
    · rfl
    · rw [List.takeWhile_cons_of_neg (by simp [hex_digit_no_space cs (hall c List.mem_cons_self)])]
  have hdrop : text.dropWhile cs.isspace = text := by
    have h := List.takeWhile_append_dropWhile (p := cs.isspace) (l := text)
    rwa [hblanks] at h
  have hsign : strtoul_sign cs text = (0, false) := by
    rcases text with _ | ⟨c, rest⟩
    · rfl
    · have minus := hex_digit_ne cs (hall c List.mem_cons_self) (by decide : '-' ∈ _)
      have plus := hex_digit_ne cs (hall c List.mem_cons_self) (by decide : '+' ∈ _)
      simp [strtoul_sign, minus, plus]
  have hmarker : strtoul_prefix cs text = 0 := by
    rcases text with _ | ⟨z, _ | ⟨x, _ | ⟨d, rest⟩⟩⟩
    · rfl
    · rfl
    · rfl
    · have second := hall x (List.mem_cons_of_mem _ List.mem_cons_self)
      exact if_neg fun h => h.2.1.elim (hex_digit_ne cs second (by decide))
        (hex_digit_ne cs second (by decide))
  have htake : (text.takeWhile fun c => (cs.hex_digit c).isSome) = text :=
    List.takeWhile_eq_self_iff.mpr hall
  have hlength : (text.filterMap cs.hex_digit).length = text.length :=
    List.filterMap_length_eq_length.mpr hall
  have hdigits : text.filterMap cs.hex_digit ≠ [] := by
    rw [← List.length_pos_iff, hlength]
    exact List.length_pos_iff.mpr hne
  rw [strtoul16, hblanks, hdrop, hsign]
  dsimp only
  rw [List.drop_zero, hmarker, List.drop_zero, htake, if_neg hdigits,
    if_neg fun h => absurd h.1 Bool.false_ne_true, hlength]
  simp [hex_value]

theorem strtoul16_hex_text (n : ℕ) : (strtoul16 cs (hex_text cs n)).1 = n := by
  rw [strtoul16_digits cs (fun c hc => hex_text_isSome cs hc) (hex_text_ne_nil cs n)]
  exact hex_value_text cs n

end Zowex.zds
