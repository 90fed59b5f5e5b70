import Zowex.Spec.Base64

/-! Round trip of the encoder and the decoder. Both are first read as walks over
groups (three bytes, four characters), where the regrouping of 8-bit into 6-bit
fields is arithmetic on numbers below `2 ^ 24`. -/

namespace Zowex.zbase64

theorem shl_or {a b i : ℕ} (hb : b < 2 ^ i) : a <<< i ||| b = a * 2 ^ i + b := by
  rw [← Nat.shiftLeft_add_eq_or_of_lt hb, Nat.shiftLeft_eq]

/-- Three bytes as one number. -/
theorem bytes_combined (b0 : ℕ) {b1 b2 : ℕ} (h1 : b1 < 256) (h2 : b2 < 256) :
    b0 <<< 16 ||| b1 <<< 8 ||| b2 = b0 * 65536 + b1 * 256 + b2 := by
  have e1 : b1 <<< 8 = b1 * 256 := Nat.shiftLeft_eq b1 8
  have h16 : b0 <<< 16 ||| b1 <<< 8 = (b0 * 256 + b1) <<< 8 := by
    rw [shl_or (by omega : b1 <<< 8 < 2 ^ 16), e1, Nat.shiftLeft_eq]
    ring
  rw [h16, shl_or (by simpa using h2)]
  ring

/-- Four sextets as one number. -/
theorem sextets_combined (c0 : ℕ) {c1 c2 c3 : ℕ} (h1 : c1 < 64) (h2 : c2 < 64)
    (h3 : c3 < 64) :
    c0 <<< 18 ||| c1 <<< 12 ||| c2 <<< 6 ||| c3 = c0 * 262144 + c1 * 4096 + c2 * 64 + c3 := by
  have e1 : c1 <<< 12 = c1 * 4096 := Nat.shiftLeft_eq c1 12
  have e2 : c2 <<< 6 = c2 * 64 := Nat.shiftLeft_eq c2 6
  have h18 : c0 <<< 18 ||| c1 <<< 12 = (c0 * 64 + c1) <<< 12 := by
    rw [shl_or (by omega : c1 <<< 12 < 2 ^ 18), e1, Nat.shiftLeft_eq]
    ring
  have h12 : (c0 * 64 + c1) <<< 12 ||| c2 <<< 6 = ((c0 * 64 + c1) * 64 + c2) <<< 6 := by
    rw [shl_or (by omega : c2 <<< 6 < 2 ^ 12), e2, Nat.shiftLeft_eq]
    ring
  rw [h18, h12, shl_or (by simpa using h3)]
  ring

theorem and_byte (c : ℕ) : c &&& 0xff = c % 256 := Nat.and_two_pow_sub_one_eq_mod c 8

theorem shr_and_sextet (c i : ℕ) : (c >>> i) &&& 0x3f = c / 2 ^ i % 64 := by
  rw [Nat.shiftRight_eq_div_pow]
  exact Nat.and_two_pow_sub_one_eq_mod _ 6

theorem and_0x80 {c : ℕ} (h : c < 64) : c &&& 0x80 = 0 := by
  have small : ∀ c < 64, c &&& 0x80 = 0 := by decide
  exact small c h

/-- The decode table inverts the alphabet, and no letter of it is the padding. -/
theorem table_inverse : ∀ v < 64,
    get_ebcdic_decode_table (encode_table_ascii.getD v 0) = v ∧
      (encode_table_ascii.getD v 0).toNat ≠ 126 := by
  decide +kernel

theorem decode_sextet (c i : ℕ) :
    get_ebcdic_decode_table (sextet c i) = c / 2 ^ i % 64 ∧ (sextet c i).toNat ≠ 126 := by
  rw [sextet, shr_and_sextet]
  exact table_inverse _ (Nat.mod_lt _ (by norm_num))

theorem pad_toNat : pad.toNat = 126 := by decide

/-- A group of four letters decodes to the three bytes of its number. -/
theorem decode_group_full {s0 s1 s2 s3 : UInt8} {c0 c1 c2 c3 : ℕ}
    (t0 : get_ebcdic_decode_table s0 = c0) (t1 : get_ebcdic_decode_table s1 = c1)
    (t2 : get_ebcdic_decode_table s2 = c2) (t3 : get_ebcdic_decode_table s3 = c3)
    (l0 : c0 < 64) (l1 : c1 < 64) (l2 : c2 < 64) (l3 : c3 < 64)
    (n2 : s2.toNat ≠ 126) (n3 : s3.toNat ≠ 126) :
    decode_group s0 s1 s2 s3 = .ok
      [UInt8.ofNat ((c0 * 262144 + c1 * 4096 + c2 * 64 + c3) / 65536 % 256),
        UInt8.ofNat ((c0 * 262144 + c1 * 4096 + c2 * 64 + c3) / 256 % 256),
        UInt8.ofNat ((c0 * 262144 + c1 * 4096 + c2 * 64 + c3) % 256)] := by
  have hor : (c0 ||| c1) &&& 0x80 = 0 :=
    and_0x80 (Nat.or_lt_two_pow (n := 6) (by simpa using l0) (by simpa using l1))
  simp only [decode_group, t0, t1, t2, t3, n2, n3, hor, and_0x80 l2, and_0x80 l3,
    sextets_combined c0 l1 l2 l3, Nat.shiftRight_eq_div_pow, and_byte, ne_eq,
    not_true_eq_false, not_false_eq_true, if_false, if_true, and_false]

/-- Three letters and one padding character decode to two bytes. -/
theorem decode_group_two {s0 s1 s2 : UInt8} {c0 c1 c2 : ℕ}
    (t0 : get_ebcdic_decode_table s0 = c0) (t1 : get_ebcdic_decode_table s1 = c1)
    (t2 : get_ebcdic_decode_table s2 = c2)
    (l0 : c0 < 64) (l1 : c1 < 64) (l2 : c2 < 64) (n2 : s2.toNat ≠ 126) :
    decode_group s0 s1 s2 pad = .ok
      [UInt8.ofNat ((c0 * 262144 + c1 * 4096 + c2 * 64) / 65536 % 256),
        UInt8.ofNat ((c0 * 262144 + c1 * 4096 + c2 * 64) / 256 % 256)] := by
  have hor : (c0 ||| c1) &&& 0x80 = 0 :=
    and_0x80 (Nat.or_lt_two_pow (n := 6) (by simpa using l0) (by simpa using l1))
  have hcomb := sextets_combined c0 l1 l2 (by norm_num : (0 : ℕ) < 64)
  simp only [decode_group, t0, t1, t2, n2, pad_toNat, hor, and_0x80 l2, hcomb,
    Nat.shiftRight_eq_div_pow, and_byte,
    ne_eq, not_true_eq_false, not_false_eq_true, if_false, if_true, and_false, false_and]
  norm_num

/-- Two letters and two padding characters decode to one byte. -/
theorem decode_group_one {s0 s1 : UInt8} {c0 c1 : ℕ}
    (t0 : get_ebcdic_decode_table s0 = c0) (t1 : get_ebcdic_decode_table s1 = c1)
    (l0 : c0 < 64) (l1 : c1 < 64) :
    decode_group s0 s1 pad pad = .ok [UInt8.ofNat ((c0 * 262144 + c1 * 4096) / 65536 % 256)] := by
  have hor : (c0 ||| c1) &&& 0x80 = 0 :=
    and_0x80 (Nat.or_lt_two_pow (n := 6) (by simpa using l0) (by simpa using l1))
  have hcomb := sextets_combined c0 l1 (by norm_num : (0 : ℕ) < 64)
    (by norm_num : (0 : ℕ) < 64)
  simp only [decode_group, t0, t1, pad_toNat, hor, hcomb,
    Nat.shiftRight_eq_div_pow, and_byte, ne_eq, not_true_eq_false, if_false, if_true, false_and]
  norm_num

theorem ofNat_toNat_of_eq {b : UInt8} {n : ℕ} (h : n = b.toNat) : UInt8.ofNat n = b := by
  rw [h, UInt8.ofNat_toNat]

theorem sextet_lt (c i : ℕ) : c / 2 ^ i % 64 < 64 := Nat.mod_lt _ (by norm_num)

theorem decode_encode_block (b0 b1 b2 : UInt8) (rest src : Bytes) (output : Bytes) :
    decode_loop output (encode_block (b0 :: b1 :: b2 :: rest) 0 ++ src) =
      decode_loop (output ++ [b0, b1, b2]) src := by
  have h0 := b0.toNat_lt
  have h1 := b1.toNat_lt
  have h2 := b2.toNat_lt
  have hc : encode_block (b0 :: b1 :: b2 :: rest) 0 =
      [sextet (b0.toNat * 65536 + b1.toNat * 256 + b2.toNat) 18,
        sextet (b0.toNat * 65536 + b1.toNat * 256 + b2.toNat) 12,
        sextet (b0.toNat * 65536 + b1.toNat * 256 + b2.toNat) 6,
        sextet (b0.toNat * 65536 + b1.toNat * 256 + b2.toNat) 0] := by
    simp [encode_block, bytes_combined _ h1 h2]
  set c := b0.toNat * 65536 + b1.toNat * 256 + b2.toNat
  have hgroup : decode_group (sextet c 18) (sextet c 12) (sextet c 6) (sextet c 0) =
      .ok [b0, b1, b2] := by
    rw [decode_group_full (decode_sextet c 18).1 (decode_sextet c 12).1 (decode_sextet c 6).1
      (decode_sextet c 0).1 (sextet_lt _ _) (sextet_lt _ _) (sextet_lt _ _) (sextet_lt _ _)
      (decode_sextet c 6).2 (decode_sextet c 0).2]
    have hsum : c / 2 ^ 18 % 64 * 262144 + c / 2 ^ 12 % 64 * 4096 + c / 2 ^ 6 % 64 * 64 +
        c / 2 ^ 0 % 64 = c := by omega
    rw [hsum, ofNat_toNat_of_eq (b := b0) (by omega), ofNat_toNat_of_eq (b := b1) (by omega),
      ofNat_toNat_of_eq (b := b2) (by omega)]
  rw [hc]
  simp only [List.cons_append, List.nil_append, decode_loop, hgroup]
  rfl

theorem decode_encode_two (b0 b1 : UInt8) (output : Bytes) :
    decode_loop output (encode_tail [b0, b1] 0 2) = .ok (output ++ [b0, b1]) := by
  have h0 := b0.toNat_lt
  have h1 := b1.toNat_lt
  have hcomb : b0.toNat <<< 16 ||| b1.toNat <<< 8 = b0.toNat * 65536 + b1.toNat * 256 := by
    simpa using bytes_combined b0.toNat h1 (by norm_num : (0 : ℕ) < 256)
  have hc : encode_tail [b0, b1] 0 2 =
      [sextet (b0.toNat * 65536 + b1.toNat * 256) 18,
        sextet (b0.toNat * 65536 + b1.toNat * 256) 12,
        sextet (b0.toNat * 65536 + b1.toNat * 256) 6, pad] := by
    simp [encode_tail, hcomb]
  set c := b0.toNat * 65536 + b1.toNat * 256
  have hgroup : decode_group (sextet c 18) (sextet c 12) (sextet c 6) pad = .ok [b0, b1] := by
    rw [decode_group_two (decode_sextet c 18).1 (decode_sextet c 12).1 (decode_sextet c 6).1
      (sextet_lt _ _) (sextet_lt _ _) (sextet_lt _ _) (decode_sextet c 6).2]
    rw [ofNat_toNat_of_eq (b := b0) (by omega), ofNat_toNat_of_eq (b := b1) (by omega)]
  rw [hc]
  simp only [decode_loop, hgroup]
  rfl

theorem decode_encode_one (b0 : UInt8) (output : Bytes) :
    decode_loop output (encode_tail [b0] 0 1) = .ok (output ++ [b0]) := by
  have h0 := b0.toNat_lt
  have hc : encode_tail [b0] 0 1 =
      [sextet (b0.toNat <<< 16) 18, sextet (b0.toNat <<< 16) 12, pad, pad] := by
    simp [encode_tail]
  rw [Nat.shiftLeft_eq] at hc
  set c := b0.toNat * 2 ^ 16
  have hgroup : decode_group (sextet c 18) (sextet c 12) pad pad = .ok [b0] := by
    rw [decode_group_one (decode_sextet c 18).1 (decode_sextet c 12).1
      (sextet_lt _ _) (sextet_lt _ _)]
    rw [ofNat_toNat_of_eq (b := b0) (by omega)]
  rw [hc]
  simp only [decode_loop, hgroup]
  rfl

/-! The encoder's loops as a walk over three-byte groups. -/

def encode_groups : Bytes → Bytes
  | b0 :: b1 :: b2 :: rest => encode_block [b0, b1, b2] 0 ++ encode_groups rest
  | [b0, b1] => encode_tail [b0, b1] 0 2
  | [b0] => encode_tail [b0] 0 1
  | [] => []

theorem encode_rest_loop_eq (src : Bytes) (n i : ℕ) (dst : Bytes) :
    encode_rest_loop src n i dst = dst ++ (List.range' i (n - i)).flatMap (encode_block src) := by
  fun_induction encode_rest_loop src n i dst with
  | case1 i dst h ih =>
    rw [ih, show n - i = n - (i + 1) + 1 by omega, List.range'_succ]
    simp
  | case2 i dst h => simp [show n - i = 0 by omega]

/-- The unrolled loop only does four rounds of the other loop at a time. -/
theorem encode_loops_eq (src : Bytes) (n i : ℕ) (dst : Bytes) :
    encode_rest_loop src n (encode_main_loop src n i dst).1 (encode_main_loop src n i dst).2 =
      dst ++ (List.range' i (n - i)).flatMap (encode_block src) := by
  fun_induction encode_main_loop src n i dst with
  | case1 i dst h ih =>
    rw [ih, show n - i = n - (i + 4) + 1 + 1 + 1 + 1 by omega]
    simp [List.range'_succ]
  | case2 i dst h => exact encode_rest_loop_eq src n i dst

theorem encode_block_succ (b0 b1 b2 : UInt8) (rest : Bytes) (k : ℕ) :
    encode_block (b0 :: b1 :: b2 :: rest) (k + 1) = encode_block rest k := by
  have h (j : ℕ) : (k + 1) * 3 + j = k * 3 + j + 1 + 1 + 1 := by ring
  simp [encode_block, h]

theorem encode_tail_succ (b0 b1 b2 : UInt8) (rest : Bytes) (n r : ℕ) :
    encode_tail (b0 :: b1 :: b2 :: rest) (n + 1) r = encode_tail rest n r := by
  have h : (n + 1) * 3 = n * 3 + 1 + 1 + 1 := by ring
  simp [encode_tail, h]

theorem encode_blocks_succ (b0 b1 b2 : UInt8) (rest : Bytes) (n : ℕ) :
    (List.range' 0 (n + 1)).flatMap (encode_block (b0 :: b1 :: b2 :: rest)) =
      encode_block [b0, b1, b2] 0 ++ (List.range' 0 n).flatMap (encode_block rest) := by
  have hhead : encode_block (b0 :: b1 :: b2 :: rest) 0 = encode_block [b0, b1, b2] 0 := by
    simp [encode_block]
  have htail : (List.range' 1 n).flatMap (encode_block (b0 :: b1 :: b2 :: rest)) =
      (List.range' 0 n).flatMap (encode_block rest) := by
    rw [← List.map_add_range' 0 n 1, List.flatMap_map]
    simp only [Nat.add_comm 1, encode_block_succ]
  rw [List.range'_succ, List.flatMap_cons, hhead, htail]

/-- The buffer overload without its early return. -/
theorem encode_unfold (input : Bytes) :
    encode input =
      (List.range' 0 (input.length / 3)).flatMap (encode_block input) ++
        if input.length % 3 > 0 then encode_tail input (input.length / 3) (input.length % 3)
        else [] := by
  have hrem : input.length - input.length / 3 * 3 = input.length % 3 := by omega
  have hloops := encode_loops_eq input (input.length / 3) 0 []
  rw [List.nil_append, Nat.sub_zero] at hloops
  cases input with
  | nil => simp [encode]
  | cons b rest =>
    rw [encode, if_neg (by simp)]
    simp only [hloops, hrem]
    split_ifs <;> simp

theorem encode_eq_groups (input : Bytes) : encode input = encode_groups input := by
  rw [encode_unfold]
  fun_induction encode_groups input with
  | case1 b0 b1 b2 rest ih =>
    have hdiv : (b0 :: b1 :: b2 :: rest).length / 3 = rest.length / 3 + 1 := by
      simp only [List.length_cons]; omega
    have hmod : (b0 :: b1 :: b2 :: rest).length % 3 = rest.length % 3 := by
      simp only [List.length_cons]; omega
    rw [hdiv, hmod, encode_blocks_succ, encode_tail_succ, List.append_assoc, ih]
  | case2 b0 b1 => simp
  | case3 b0 => simp
  | case4 => simp

/-- The buffer the encoder allocates up front has exactly the size of what it writes. -/
theorem encode_length (input : Bytes) : (encode input).length = encoded_size input.length := by
  rw [encode_eq_groups]
  fun_induction encode_groups input with
  | case1 b0 b1 b2 rest ih =>
    simp only [List.length_append, List.length_cons, ih, encoded_size, encode_block,
      List.length_nil]
    omega
  | case2 b0 b1 => simp [encode_tail, encoded_size]
  | case3 b0 => simp [encode_tail, encoded_size]
  | case4 => rfl

theorem decode_loop_groups (input output : Bytes) :
    decode_loop output (encode_groups input) = .ok (output ++ input) := by
  fun_induction encode_groups input generalizing output with
  | case1 b0 b1 b2 rest ih =>
    rw [decode_encode_block, ih]
    simp
  | case2 b0 b1 => exact decode_encode_two b0 b1 output
  | case3 b0 => exact decode_encode_one b0 output
  | case4 => simp [decode_loop]

theorem decode_encode (x : Bytes) : decode (encode x) = .ok x := by
  have hlen : (encode x).length % 4 = 0 := by rw [encode_length, encoded_size]; omega
  rw [decode]
  split_ifs with hzero hmod
  · rw [List.length_eq_zero_iff] at hzero
    have h := decode_loop_groups x []
    rwa [← encode_eq_groups, hzero] at h
  · exact absurd hlen hmod
  · rw [encode_eq_groups]
    exact decode_loop_groups x []

/-- Both pairs of overloads give back every byte string. -/
theorem base64_round_trip (x : Bytes) :
    decode (encode x) = .ok x ∧ decode_string (encode_string x) = .ok x :=
  ⟨decode_encode x, decode_encode x⟩

end Zowex.zbase64
