import Zowex.Proofs.Base64

/-! The inputs the decoder accepts. A group is looked at by itself, so padding in an
earlier group and a letter after a padding character pass. -/

namespace Zowex.zbase64

/-- Whole groups of letters with at most two padding characters at the end. -/
def IsPadded (input : Bytes) : Prop :=
  input.length % 4 = 0 ∧ ∃ letters padding, input = letters ++ List.replicate padding pad ∧
    padding ≤ 2 ∧ ∀ c ∈ letters, c ∈ encode_table_ascii

/-- A letter, or the padding character. -/
def LetterOrPad (c : UInt8) : Prop := c ∈ encode_table_ascii ∨ c = pad

/-- Every group begins with two letters. -/
def Grouped : Bytes → Prop
  | [] => True
  | s0 :: s1 :: s2 :: s3 :: rest =>
    s0 ∈ encode_table_ascii ∧ s1 ∈ encode_table_ascii ∧ LetterOrPad s2 ∧ LetterOrPad s3 ∧
      Grouped rest
  | _ => False

/-- Something else comes after a padding character. -/
def PadInside (input : Bytes) : Prop :=
  ∃ before c after, input = before ++ pad :: c :: after ∧ c ≠ pad

/-- Accepted exactly when padded, at the length the padding leaves. -/
def DecodesPadded (input : Bytes) : Prop :=
  ((∃ output, decode input = .ok output) ↔ IsPadded input) ∧
    ∀ output, decode input = .ok output →
      output.length = 3 * input.length / 4 - input.count pad

theorem letter_iff (c : UInt8) :
    get_ebcdic_decode_table c &&& 0x80 = 0 ↔ c ∈ encode_table_ascii := by
  have codes : encode_table_ascii.map UInt8.toNat =
      List.range' 193 9 ++ List.range' 209 9 ++ List.range' 226 8 ++ List.range' 129 9 ++
        List.range' 145 9 ++ List.range' 162 8 ++ List.range' 240 10 ++ [78, 97] := by
    decide +kernel
  have every : ∀ n < 256, get_ebcdic_decode_table (UInt8.ofNat n) &&& 0x80 = 0 ↔
      n ∈ List.range' 193 9 ++ List.range' 209 9 ++ List.range' 226 8 ++ List.range' 129 9 ++
        List.range' 145 9 ++ List.range' 162 8 ++ List.range' 240 10 ++ [78, 97] := by
    decide +kernel
  have h := every c.toNat c.toNat_lt
  rw [UInt8.ofNat_toNat, ← codes, List.mem_map_of_injective fun _ _ => UInt8.toNat_inj.mp] at h
  exact h

theorem letters_iff (c d : UInt8) :
    (get_ebcdic_decode_table c ||| get_ebcdic_decode_table d) &&& 0x80 = 0 ↔
      c ∈ encode_table_ascii ∧ d ∈ encode_table_ascii := by
  rw [Nat.and_or_distrib_right, Nat.or_eq_zero_iff, letter_iff, letter_iff]

theorem pad_iff (c : UInt8) : c.toNat = 126 ↔ c = pad := by
  rw [← pad_toNat, UInt8.toNat_inj]

theorem pad_no_letter : pad ∉ encode_table_ascii := by decide +kernel

/-- The bytes a group gives. -/
def group_size (s2 s3 : UInt8) : ℕ := if s2 = pad then 1 else if s3 = pad then 2 else 3

/-- The test made on each of the last two characters of a group. -/
theorem letter_or_pad_iff (c : UInt8) :
    LetterOrPad c ↔ ¬ (c.toNat ≠ 126 ∧
      (if c.toNat = 126 then 0 else get_ebcdic_decode_table c) &&& 0x80 ≠ 0) := by
  unfold LetterOrPad
  by_cases padding : c = pad
  · simp [padding, pad_toNat]
  · simp [pad_iff, padding, letter_iff]

theorem decode_group_accepts {s0 s1 s2 s3 : UInt8} (h0 : s0 ∈ encode_table_ascii)
    (h1 : s1 ∈ encode_table_ascii) (h2 : LetterOrPad s2) (h3 : LetterOrPad s3) :
    ∃ group, decode_group s0 s1 s2 s3 = .ok group ∧ group.length = group_size s2 s3 := by
  have first := (letters_iff s0 s1).mpr ⟨h0, h1⟩
  rw [letter_or_pad_iff] at h2 h3
  unfold decode_group group_size
  dsimp only
  rw [if_neg (not_not.mpr first), if_neg h2, if_neg h3]
  by_cases e2 : s2 = pad <;> by_cases e3 : s3 = pad <;> simp [pad_iff, e2, e3]

theorem decode_group_rejects {s0 s1 s2 s3 : UInt8} {group : Bytes}
    (h : decode_group s0 s1 s2 s3 = .ok group) :
    s0 ∈ encode_table_ascii ∧ s1 ∈ encode_table_ascii ∧ LetterOrPad s2 ∧ LetterOrPad s3 := by
  rw [letter_or_pad_iff s2, letter_or_pad_iff s3]
  unfold decode_group at h
  dsimp only at h
  by_cases first : (get_ebcdic_decode_table s0 ||| get_ebcdic_decode_table s1) &&& 0x80 = 0
  · obtain ⟨h0, h1⟩ := (letters_iff s0 s1).mp first
    rw [if_neg (not_not.mpr first)] at h
    refine ⟨h0, h1, fun bad => ?_, fun bad => ?_⟩
    · rw [if_pos bad] at h
      cases h
    · rw [if_pos bad] at h
      split_ifs at h
  · rw [if_pos first] at h
    cases h

theorem decode_loop_cons {s0 s1 s2 s3 : UInt8} {group : Bytes} (output rest : Bytes)
    (h : decode_group s0 s1 s2 s3 = .ok group) :
    decode_loop output (s0 :: s1 :: s2 :: s3 :: rest) = decode_loop (output ++ group) rest := by
  rw [decode_loop, h]
  rfl

theorem Grouped.length {input : Bytes} (h : Grouped input) : input.length % 4 = 0 := by
  fun_induction Grouped input with
  | case1 => rfl
  | case2 s0 s1 s2 s3 rest ih =>
    have := ih h.2.2.2.2
    simp only [List.length_cons]
    omega
  | case3 input short long => exact h.elim

/-- The bytes all groups give. -/
def decoded_size : Bytes → ℕ
  | _ :: _ :: s2 :: s3 :: rest => group_size s2 s3 + decoded_size rest
  | _ => 0

theorem decode_loop_accepts {input : Bytes} (h : Grouped input) (output : Bytes) :
    ∃ bytes, decode_loop output input = .ok bytes ∧
      bytes.length = output.length + decoded_size input := by
  fun_induction Grouped input generalizing output with
  | case1 => exact ⟨output, rfl, rfl⟩
  | case2 s0 s1 s2 s3 rest ih =>
    obtain ⟨h0, h1, h2, h3, grouped⟩ := h
    obtain ⟨group, decoded, size⟩ := decode_group_accepts h0 h1 h2 h3
    obtain ⟨bytes, run, length⟩ := ih grouped (output ++ group)
    refine ⟨bytes, (decode_loop_cons output rest decoded).trans run, ?_⟩
    rw [length, List.length_append, size, decoded_size, Nat.add_assoc]
  | case3 input short long => exact h.elim

theorem decode_loop_grouped {input output bytes : Bytes} (whole : input.length % 4 = 0)
    (h : decode_loop output input = .ok bytes) : Grouped input := by
  fun_induction Grouped input generalizing output with
  | case1 => trivial
  | case2 s0 s1 s2 s3 rest ih =>
    cases decoded : decode_group s0 s1 s2 s3 with
    | error e =>
      rw [decode_loop, decoded] at h
      cases h
    | ok group =>
      rw [decode_loop_cons output rest decoded] at h
      obtain ⟨h0, h1, h2, h3⟩ := decode_group_rejects decoded
      simp only [List.length_cons] at whole
      exact ⟨h0, h1, h2, h3, ih (by omega) h⟩
  | case3 input short long =>
    rcases input with _ | ⟨_, _ | ⟨_, _ | ⟨_, _ | ⟨_, rest⟩⟩⟩⟩
    · exact short rfl
    · simp at whole
    · simp at whole
    · simp at whole
    · exact long _ _ _ _ _ rfl

theorem decode_eq_loop {input : Bytes} (whole : input.length % 4 = 0) :
    decode input = decode_loop [] input := by
  unfold decode
  by_cases empty : input.length = 0
  · rw [if_pos empty, List.length_eq_zero_iff.mp empty]
    rfl
  · rw [if_neg empty, if_neg (by omega)]

theorem decode_accepts {input : Bytes} (h : Grouped input) :
    ∃ bytes, decode input = .ok bytes ∧ bytes.length = decoded_size input := by
  obtain ⟨bytes, run, length⟩ := decode_loop_accepts h []
  exact ⟨bytes, (decode_eq_loop h.length).trans run, by simpa using length⟩

theorem decode_grouped {input bytes : Bytes} (h : decode input = .ok bytes) :
    Grouped input := by
  by_cases whole : input.length % 4 = 0
  · exact decode_loop_grouped whole (decode_eq_loop whole ▸ h)
  · unfold decode at h
    rw [if_neg (by omega), if_pos whole] at h
    cases h

/-! Against padded base64. -/

theorem PadInside.cons {c : UInt8} {input : Bytes} (h : PadInside input) :
    PadInside (c :: input) := by
  obtain ⟨before, d, after, rfl, other⟩ := h
  exact ⟨c :: before, d, after, rfl, other⟩

theorem PadInside.head {c : UInt8} (input : Bytes) (other : c ≠ pad) :
    PadInside (pad :: c :: input) :=
  ⟨[], c, input, rfl, other⟩

theorem PadInside.tail {c : UInt8} {input : Bytes} (h : PadInside (c :: input))
    (letter : c ≠ pad) : PadInside input := by
  obtain ⟨before, d, after, same, other⟩ := h
  cases before with
  | nil => exact absurd (List.cons.inj same).1 letter
  | cons e before => exact ⟨before, d, after, (List.cons.inj same).2, other⟩

theorem letter_ne_pad {c : UInt8} (h : c ∈ encode_table_ascii) : c ≠ pad :=
  fun same => pad_no_letter (same ▸ h)

theorem count_padding {letters : Bytes} {padding : ℕ}
    (valid : ∀ c ∈ letters, c ∈ encode_table_ascii) :
    (letters ++ List.replicate padding pad).count pad = padding := by
  have none_inside : letters.count pad = 0 :=
    List.count_eq_zero.mpr fun inside => pad_no_letter (valid pad inside)
  rw [List.count_append, none_inside, List.count_replicate_self, Nat.zero_add]

/-- A letter, when a letter comes next. -/
theorem LetterOrPad.letter {c d : UInt8} {input : Bytes} (h : LetterOrPad c)
    (last : ¬ PadInside (c :: d :: input)) (other : d ≠ pad) : c ∈ encode_table_ascii := by
  apply h.resolve_right
  rintro rfl
  exact last (PadInside.head input other)

/-- Padding behind which nothing else comes is at the end of the last group. -/
theorem Grouped.padded {input : Bytes} (h : Grouped input) (last : ¬ PadInside input) :
    decoded_size input = 3 * input.length / 4 - input.count pad ∧
      ∃ letters padding, input = letters ++ List.replicate padding pad ∧ padding ≤ 2 ∧
        ∀ c ∈ letters, c ∈ encode_table_ascii := by
  fun_induction Grouped input with
  | case1 => exact ⟨rfl, [], 0, rfl, by omega, by simp⟩
  | case2 s0 s1 s2 s3 rest ih =>
    obtain ⟨h0, h1, h2, h3, grouped⟩ := h
    have last2 : ¬ PadInside (s2 :: s3 :: rest) := fun inside => last inside.cons.cons
    have last3 : ¬ PadInside (s3 :: rest) := fun inside => last2 inside.cons
    have n0 := letter_ne_pad h0
    have n1 := letter_ne_pad h1
    cases rest with
    | nil =>
      by_cases e3 : s3 = pad
      · by_cases e2 : s2 = pad
        · refine ⟨by simp [decoded_size, group_size, e2, e3, n0, n1], [s0, s1], 2, ?_⟩
          simp [e2, e3, h0, h1, List.replicate]
        · have letter2 := h2.resolve_right e2
          refine ⟨by simp [decoded_size, group_size, e2, e3, n0, n1], [s0, s1, s2], 1, ?_⟩
          simp [e3, h0, h1, letter2]
      · have letter2 := h2.letter last2 e3
        have n2 := letter_ne_pad letter2
        refine ⟨by simp [decoded_size, group_size, e3, n0, n1, n2], [s0, s1, s2, s3], 0, ?_⟩
        simp [h0, h1, letter2, h3.resolve_right e3]
    | cons c rest =>
      have n : c ≠ pad := by
        match rest, grouped with
        | _ :: _ :: _ :: _, grouped => exact letter_ne_pad grouped.1
      have letter3 := h3.letter last3 n
      have letter2 := h2.letter last2 (letter_ne_pad letter3)
      have n2 := letter_ne_pad letter2
      have n3 := letter_ne_pad letter3
      obtain ⟨size, letters, padding, same, few, valid⟩ :=
        ih grouped fun inside => last3 inside.cons
      constructor
      · have whole := grouped.length
        have bound : (c :: rest).count pad ≤ 2 := by rwa [same, count_padding valid]
        simp only [List.length_cons] at whole
        simp only [decoded_size, group_size, n2, n3, if_false, size, List.length_cons,
          List.count_cons_of_ne n0, List.count_cons_of_ne n1, List.count_cons_of_ne n2,
          List.count_cons_of_ne n3]
        omega
      · refine ⟨s0 :: s1 :: s2 :: s3 :: letters, padding, by simp [same], few, ?_⟩
        simpa [h0, h1, letter2, letter3] using valid
  | case3 input short long => exact h.elim

theorem IsPadded.grouped {input : Bytes} (h : IsPadded input) : Grouped input := by
  obtain ⟨whole, letters, padding, same, few, valid⟩ := h
  fun_induction Grouped input generalizing letters with
  | case1 => trivial
  | case2 s0 s1 s2 s3 rest ih =>
    have length := congrArg List.length same
    simp only [List.length_cons, List.length_append, List.length_replicate] at length whole
    match letters, same, valid, length with
    | [], _, _, length | [_], _, _, length => simp at length; omega
    | [a, b], same, valid, length =>
      obtain rfl : padding = 2 := by simp at length; omega
      obtain ⟨rfl, rfl, rfl, rfl, rfl⟩ : s0 = a ∧ s1 = b ∧ s2 = pad ∧ s3 = pad ∧ rest = [] := by
        simpa [List.replicate] using same
      exact ⟨valid _ (by simp), valid _ (by simp), .inr rfl, .inr rfl, trivial⟩
    | [a, b, c], same, valid, length =>
      obtain rfl : padding = 1 := by simp at length; omega
      obtain ⟨rfl, rfl, rfl, rfl, rfl⟩ : s0 = a ∧ s1 = b ∧ s2 = c ∧ s3 = pad ∧ rest = [] := by
        simpa [List.replicate] using same
      exact ⟨valid _ (by simp), valid _ (by simp), .inl (valid _ (by simp)), .inr rfl, trivial⟩
    | a :: b :: c :: d :: letters, same, valid, length =>
      obtain ⟨rfl, rfl, rfl, rfl, rest_eq⟩ : s0 = a ∧ s1 = b ∧ s2 = c ∧ s3 = d ∧
          rest = letters ++ List.replicate padding pad := by simpa using same
      exact ⟨valid _ (by simp), valid _ (by simp), .inl (valid _ (by simp)),
        .inl (valid _ (by simp)), ih (by omega) letters rest_eq fun e he => valid e (by simp [he])⟩
  | case3 input short long =>
    rcases input with _ | ⟨_, _ | ⟨_, _ | ⟨_, _ | ⟨_, rest⟩⟩⟩⟩
    · exact short rfl
    · simp at whole
    · simp at whole
    · simp at whole
    · exact long _ _ _ _ _ rfl

theorem IsPadded.last {input : Bytes} (h : IsPadded input) : ¬ PadInside input := by
  obtain ⟨-, letters, padding, rfl, -, valid⟩ := h
  induction letters with
  | nil =>
    rintro ⟨before, c, after, same, other⟩
    have inside : c ∈ List.replicate padding pad := by
      rw [← List.nil_append (List.replicate padding pad), same]
      simp
    exact other (List.eq_of_mem_replicate inside)
  | cons l letters ih =>
    intro inside
    apply ih fun c hc => valid c (List.mem_cons_of_mem l hc)
    exact inside.tail (letter_ne_pad (valid l List.mem_cons_self))

/-- Accepted as padded base64 are exactly the inputs that are not made of groups with a
padding character somewhere before their end. -/
theorem decodes_padded_iff (input : Bytes) :
    DecodesPadded input ↔ ¬ (Grouped input ∧ PadInside input) := by
  constructor
  · intro padded wrong
    obtain ⟨bytes, decoded, -⟩ := decode_accepts wrong.1
    exact (padded.1.mp ⟨bytes, decoded⟩).last wrong.2
  · intro right
    have accepted {bytes : Bytes} (h : decode input = .ok bytes) :=
      (decode_grouped h).padded fun inside => right ⟨decode_grouped h, inside⟩
    refine ⟨⟨fun ⟨bytes, h⟩ => ⟨(decode_grouped h).length, (accepted h).2⟩, ?_⟩, ?_⟩
    · intro padded
      obtain ⟨bytes, decoded, -⟩ := decode_accepts padded.grouped
      exact ⟨bytes, decoded⟩
    · intro bytes h
      obtain ⟨same, decoded, size⟩ := decode_accepts (decode_grouped h)
      cases decoded.symm.trans h
      exact size.trans (accepted h).1

/-- A letter after the padding is accepted. -/
theorem pad_inside_accepted : ¬ DecodesPadded (ibm1047.str "AA=A") := by
  have accepted : decode (ibm1047.str "AA=A") = .ok [0] := by decide +kernel
  intro padded
  have inside : PadInside (ibm1047.str "AA=A") :=
    ⟨ibm1047.str "AA", ibm1047.code 'A', [], by decide +kernel, by decide +kernel⟩
  exact (padded.1.mp ⟨[0], accepted⟩).last inside

end Zowex.zbase64
