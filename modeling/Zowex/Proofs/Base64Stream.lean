import Zowex.Lib.Blocks
import Zowex.Proofs.Base64

/-! The streaming overloads. A run of calls on one buffer is `Blocks.feed`, and both
conversions may be applied block by block. -/

namespace Zowex.zbase64

open Blocks

theorem store_leftover_eq (xs : Bytes) (n : ℕ) :
    store_leftover xs (some []) n = (xs.length - xs.length % n, some (rest n xs)) := by
  have hlen := length_rest n xs
  by_cases hextra : xs.length % n > 0
  · have htake : (rest n xs).take (xs.length % n) = rest n xs :=
      List.take_of_length_le (le_of_eq hlen)
    simp only [store_leftover, hextra, if_true]
    rw [← rest, htake]
  · have hrest : rest n xs = [] := List.eq_nil_of_length_eq_zero (by omega)
    simp only [store_leftover, hextra, if_false, hrest]

/-- One call works on the whole blocks of buffer and input and keeps the rest. The early
return for an empty input is the case where there is nothing of either. -/
theorem combine_some (input left : Bytes) (n : ℕ) :
    (combine input (some left) n).2 = some (rest n (left ++ input)) ∧
      ((combine input (some left) n).1 = some (whole n (left ++ input)) ∨
        (combine input (some left) n).1 = none ∧ whole n (left ++ input) = []) := by
  cases left with
  | nil =>
    by_cases hzero : input.length = 0
    · have hnil : input = [] := List.eq_nil_of_length_eq_zero hzero
      simp [combine, hnil, rest, whole]
    · simp only [combine, hzero, if_false, store_leftover_eq, List.nil_append]
      exact ⟨trivial, .inl rfl⟩
  | cons b bs =>
    simp only [combine, load_leftover, store_leftover_eq]
    exact ⟨trivial, .inl rfl⟩

theorem encode_nil : encode [] = [] := by simp [encode]

theorem decode_nil : decode [] = .ok [] := by simp [decode]

theorem encode_stream_some (input left : Bytes) :
    encode_stream input (some left) =
      (encode (whole 3 (left ++ input)), some (rest 3 (left ++ input))) := by
  obtain ⟨h2, h1⟩ := combine_some input left 3
  unfold encode_stream
  rcases hc : combine input (some left) 3 with ⟨c, l⟩
  rw [hc] at h1 h2
  rcases h1 with h1 | ⟨h1, hw⟩
  · simp only at h1 h2
    rw [h1, h2]
  · simp only at h1 h2
    rw [h1, h2, hw, encode_nil]

theorem decode_stream_some (input left : Bytes) :
    decode_stream input (some left) =
      (decode (whole 4 (left ++ input)), some (rest 4 (left ++ input))) := by
  obtain ⟨h2, h1⟩ := combine_some input left 4
  unfold decode_stream
  rcases hc : combine input (some left) 4 with ⟨c, l⟩
  rw [hc] at h1 h2
  rcases h1 with h1 | ⟨h1, hw⟩
  · simp only at h1 h2
    rw [h1, h2]
  · simp only at h1 h2
    rw [h1, h2, hw, decode_nil]

theorem encode_run_eq (inputs : List Bytes) (left : Bytes) :
    encode_run inputs (some left) =
      ((feed 3 left inputs).1.map encode, some (feed 3 left inputs).2) := by
  induction inputs generalizing left with
  | nil => rfl
  | cons input inputs ih => simp only [encode_run, encode_stream_some, ih, feed, List.map_cons]

/-- Up to the first exception the buffer is the carry of the calls made. -/
theorem decode_run_left (inputs : List Bytes) {left : Bytes} (hl : left.length < 4) :
    ∃ l, (decode_run inputs (some left)).2 = some l ∧ l.length < 4 := by
  induction inputs generalizing left with
  | nil => exact ⟨left, rfl, hl⟩
  | cons input inputs ih =>
    have hrest := length_rest_lt 4 (by norm_num) (left ++ input)
    rw [decode_run, decode_stream_some]
    rcases decode (whole 4 (left ++ input)) with e | out
    · exact ⟨_, rfl, hrest⟩
    · exact ih hrest

theorem decode_run_eq (inputs : List Bytes) (left : Bytes) {outs : List Bytes}
    (h : (feed 4 left inputs).1.mapM decode = .ok outs) :
    decode_run inputs (some left) = (.ok outs, some (feed 4 left inputs).2) := by
  induction inputs generalizing left outs with
  | nil =>
    obtain rfl : [] = outs := by simpa [feed, pure, Except.pure] using h
    rfl
  | cons input inputs ih =>
    rw [decode_run, decode_stream_some]
    simp only [feed, List.mapM_cons] at h ⊢
    rcases hd : decode (whole 4 (left ++ input)) with e | out
    · rw [hd] at h
      cases h
    · rcases hm : (feed 4 (rest 4 (left ++ input)) inputs).1.mapM decode with e | tail
      · rw [hd, hm] at h
        cases h
      · obtain rfl : out :: tail = outs := by
          simpa [hd, hm, bind, Except.bind, pure, Except.pure] using h
        simp only [ih _ hm]
        rfl

/-- Encoding splits after every multiple of three bytes. -/
theorem encode_append (a b : Bytes) (ha : 3 ∣ a.length) :
    encode (a ++ b) = encode a ++ encode b := by
  simp only [encode_eq_groups]
  fun_induction encode_groups a with
  | case1 b0 b1 b2 tail ih =>
    have htail : 3 ∣ tail.length := by
      rw [List.length_cons, List.length_cons, List.length_cons] at ha
      omega
    simp only [List.cons_append, encode_groups, ih htail, List.append_assoc]
  | case2 b0 b1 => simp at ha
  | case3 b0 => simp at ha
  | case4 => simp

/-- The decoder's loop as a walk over four-character groups. -/
def decode_groups : Bytes → Except DecodeError Bytes
  | s0 :: s1 :: s2 :: s3 :: src => do
    let group ← decode_group s0 s1 s2 s3
    let out ← decode_groups src
    return group ++ out
  | _ => .ok []

theorem decode_loop_eq (output input : Bytes) :
    decode_loop output input = (do let o ← decode_groups input; return output ++ o) := by
  fun_induction decode_groups input generalizing output with
  | case1 s0 s1 s2 s3 src ih => simp [decode_loop, ih]
  | case2 src hshort =>
    rw [decode_loop.eq_2 output src hshort]
    simp [bind, Except.bind, pure, Except.pure]

theorem decode_groups_append (a b : Bytes) (ha : 4 ∣ a.length) :
    decode_groups (a ++ b) =
      (do let x ← decode_groups a; let y ← decode_groups b; return x ++ y) := by
  fun_induction decode_groups a with
  | case1 s0 s1 s2 s3 tail ih =>
    have htail : 4 ∣ tail.length := by
      simp only [List.length_cons] at ha
      omega
    simp only [List.cons_append, decode_groups, ih htail, bind_assoc, pure_bind,
      List.append_assoc]
  | case2 src hshort =>
    match src, hshort with
    | [], _ => exact (bind_pure (decode_groups b)).symm
    | [_], _ => simp at ha
    | [_, _], _ => simp at ha
    | [_, _, _], _ => simp at ha
    | s0 :: s1 :: s2 :: s3 :: tail, h => exact (h s0 s1 s2 s3 tail rfl).elim

theorem decode_of_dvd {input : Bytes} (h : 4 ∣ input.length) :
    decode input = decode_groups input := by
  rw [decode]
  split_ifs with hzero hmod
  · rw [List.eq_nil_of_length_eq_zero hzero, decode_groups]
    simp
  · omega
  · simp [decode_loop_eq]

theorem decode_append (a b : Bytes) (ha : 4 ∣ a.length) (hb : 4 ∣ b.length) :
    decode (a ++ b) = (do let x ← decode a; let y ← decode b; return x ++ y) := by
  have hab : 4 ∣ (a ++ b).length := by
    rw [List.length_append]
    exact Nat.dvd_add ha hb
  rw [decode_of_dvd ha, decode_of_dvd hb, decode_of_dvd hab, decode_groups_append a b ha]

theorem dvd_length_of_decode {input out : Bytes} (h : decode input = .ok out) :
    4 ∣ input.length := by
  rw [decode] at h
  split_ifs at h with hzero hmod
  · omega
  · omega

/-- The text of whole groups leaves nothing over, however it is cut. -/
theorem decode_run_flatten {chunks : List Bytes} {out : Bytes}
    (h : decode chunks.flatten = .ok out) :
    ∃ outs, decode_run chunks (some []) = (.ok outs, some []) ∧ outs.flatten = out := by
  have hnil := feed_carry_nil 4 (by norm_num) chunks (dvd_length_of_decode h)
  have hflat := feed_flatten 4 [] chunks
  rw [hnil, List.append_nil, List.nil_append] at hflat
  rw [← hflat, mapM_flatten 4 decode_nil decode_append (dvd_length_feed 4 [] chunks)] at h
  rcases hm : (feed 4 [] chunks).1.mapM decode with e | outs
  · rw [hm] at h
    cases h
  · refine ⟨outs, ?_, ?_⟩
    · rw [decode_run_eq chunks [] hm, hnil]
    · rw [hm] at h
      simpa [bind, Except.bind, pure, Except.pure] using h

/-- However a byte string or a base64 text is cut into chunks, the streamed outputs and
the conversion of what is left are the one-shot result, and the buffer never holds a
whole group between two calls. -/
theorem streaming_chunk_invariant (chunks : List Bytes) :
    (∃ outs left, encode_run chunks (some []) = (outs, some left) ∧ left.length < 3 ∧
      outs.flatten ++ encode left = encode chunks.flatten) ∧
    (∃ left, (decode_run chunks (some [])).2 = some left ∧ left.length < 4) ∧
    (∀ out, decode chunks.flatten = .ok out →
      ∃ outs left last, decode_run chunks (some []) = (.ok outs, some left) ∧
        decode left = .ok last ∧ outs.flatten ++ last = out) := by
  refine ⟨?_, decode_run_left chunks (by norm_num), fun out hout => ?_⟩
  · refine ⟨_, _, encode_run_eq chunks [], length_feed_lt 3 (by norm_num) (by norm_num) chunks, ?_⟩
    rw [← map_flatten 3 encode_append (dvd_length_feed 3 [] chunks), feed_flatten, List.nil_append]
  · obtain ⟨outs, hrun, hflat⟩ := decode_run_flatten hout
    refine ⟨outs, [], [], hrun, decode_nil, ?_⟩
    rw [List.append_nil, hflat]

theorem streaming_chunk_invariant_split :
    ∃ outs left last,
      decode_run [ibm1047.str "QU", [], ibm1047.str "I="] (some []) = (.ok outs, some left) ∧
        decode left = .ok last ∧ outs.flatten ++ last = [0x41, 0x42] :=
  (streaming_chunk_invariant [ibm1047.str "QU", [], ibm1047.str "I="]).2.2 [0x41, 0x42]
    (by decide +kernel)

end Zowex.zbase64
