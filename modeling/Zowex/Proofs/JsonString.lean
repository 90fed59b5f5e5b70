import Zowex.Spec.JsonString

/-! Round trip of the JSON string escapes. The decoder reads back each piece of the
encoder's output by itself: after the piece of `c` it has appended `c`, or, for a control
character without a named escape, has rejected the text. -/

namespace Zowex.zjson

variable (cs : Charset)

/-- The control characters the encoder writes as `\ufffd`. -/
def unnamed_control (c : UInt8) : Prop := cs.iscntrl c = true ∧ c ∉ escapes.map cs.code

theorem unescape_nil (res : Bytes) : unescape_loop cs res [] = .ok res := by
  rw [unescape_loop]

/-- A character other than the backslash stands for itself. -/
theorem unescape_raw {c : UInt8} (hc : c ≠ cs.code '\\') (res t : Bytes) :
    unescape_loop cs res (c :: t) = unescape_loop cs (res ++ [c]) t := by
  cases t with
  | nil => simp [unescape_loop]
  | cons e t => rw [unescape_loop, if_neg hc]

/-- The named escapes of the encoder. -/
def named_escapes : List (Char × Char) :=
  [('"', '"'), ('\\', '\\'), ('b', '\x08'), ('f', '\x0c'), ('n', '\n'), ('r', '\r'), ('t', '\t')]

theorem unescape_named {e c : Char} (h : (e, c) ∈ named_escapes) (res t : Bytes) :
    unescape_loop cs res (cs.code '\\' :: cs.code e :: t) =
      unescape_loop cs (res ++ [cs.code c]) t := by
  simp only [named_escapes, List.mem_cons, Prod.mk.injEq, List.not_mem_nil, or_false] at h
  rw [unescape_loop, if_pos rfl]
  rcases h with ⟨rfl, rfl⟩ | ⟨rfl, rfl⟩ | ⟨rfl, rfl⟩ | ⟨rfl, rfl⟩ | ⟨rfl, rfl⟩ | ⟨rfl, rfl⟩ |
    ⟨rfl, rfl⟩ <;>
  simp (disch := decide) only [cs.code_eq_iff, Char.reduceEq, ↓reduceIte]

theorem escape_named {e c : Char} (h : (e, c) ∈ named_escapes) :
    escape_char cs (cs.code c) = [cs.code '\\', cs.code e] := by
  simp only [named_escapes, List.mem_cons, Prod.mk.injEq, List.not_mem_nil, or_false] at h
  rw [escape_char]
  rcases h with ⟨rfl, rfl⟩ | ⟨rfl, rfl⟩ | ⟨rfl, rfl⟩ | ⟨rfl, rfl⟩ | ⟨rfl, rfl⟩ | ⟨rfl, rfl⟩ |
    ⟨rfl, rfl⟩ <;>
  simp (disch := decide) only [cs.code_eq_iff, Char.reduceEq, ↓reduceIte] <;> rfl

theorem hex_digit_f : cs.hex_digit (cs.code 'f') = some 15 := by
  simp (disch := decide) [Charset.hex_digit, List.lookup_cons, cs.code_beq]

theorem hex_digit_d : cs.hex_digit (cs.code 'd') = some 13 := by
  simp (disch := decide) [Charset.hex_digit, List.lookup_cons, cs.code_beq]

/-- `U+FFFD` is above the single-byte range. -/
theorem strtoul16_fffd : strtoul16 cs (cs.str "fffd") = (65533, 4) := by
  have hf : cs.isspace (cs.code 'f') = false := cs.isspace_printable 'f' (by decide) (by decide)
  have htext : cs.str "fffd" = [cs.code 'f', cs.code 'f', cs.code 'f', cs.code 'd'] := rfl
  have hsign : strtoul_sign cs (cs.str "fffd") = (0, false) := by
    simp (disch := decide) [htext, strtoul_sign, cs.code_eq_iff]
  have hmarker : strtoul_prefix cs (cs.str "fffd") = 0 := by
    simp (disch := decide) [htext, strtoul_prefix, cs.code_eq_iff]
  have hblanks : (cs.str "fffd").takeWhile cs.isspace = [] := by simp [htext, hf]
  have hrest : (cs.str "fffd").dropWhile cs.isspace = cs.str "fffd" := by simp [htext, hf]
  have hdigits : ((cs.str "fffd").takeWhile fun c => (cs.hex_digit c).isSome).filterMap
      cs.hex_digit = [15, 15, 15, 13] := by
    simp [htext, hex_digit_f, hex_digit_d]
  simp only [strtoul16, hblanks, hrest, hsign, List.drop_zero, hmarker, hdigits]
  rfl

theorem unescape_fffd (res t : Bytes) :
    ∃ e, unescape_loop cs res (cs.str "\\ufffd" ++ t) = .error e := by
  have htext : cs.str "\\ufffd" ++ t =
      cs.code '\\' :: cs.code 'u' :: (cs.str "fffd" ++ t) := rfl
  have hlen : (cs.str "fffd").length = 4 := rfl
  have hhex : unescape_hex cs (cs.str "fffd") = .error (.invalid_value cs
      (cs.str "JSON string contains an unsupported \\u escape: \\u" ++ cs.str "fffd")) := by
    simp [unescape_hex, strtoul16_fffd]
  have htake : (cs.str "fffd" ++ t).take 4 = cs.str "fffd" := List.take_left' hlen
  rw [htext, unescape_loop, if_pos rfl]
  simp (disch := decide) only [cs.code_eq_iff, Char.reduceEq, ↓reduceIte]
  simp [hhex, htake, hlen, bind, Except.bind]

/-- A character without a named escape is written as itself or as `\ufffd`. -/
theorem escape_other {c : UInt8} (h : ∀ p ∈ named_escapes, c ≠ cs.code p.2) :
    escape_char cs c = if cs.iscntrl c then cs.str "\\ufffd" else [c] := by
  simp only [named_escapes, List.mem_cons, List.not_mem_nil, or_false, forall_eq_or_imp,
    forall_eq] at h
  obtain ⟨h1, h2, h3, h4, h5, h6, h7⟩ := h
  simp only [escape_char, h1, h2, h3, h4, h5, h6, h7, if_false]

theorem not_unnamed_of_named {p : Char × Char} (hp : p ∈ named_escapes) :
    ¬ unnamed_control cs (cs.code p.2) := by
  rintro ⟨hcntrl, hmem⟩
  have hsplit : p.2 ∈ printable ∨ p.2 ∈ escapes := by
    have hall : ∀ q ∈ named_escapes, q.2 ∈ printable ∨ q.2 ∈ escapes := by decide
    exact hall p hp
  rcases hsplit with hprint | hesc
  · rw [cs.iscntrl_printable _ hprint] at hcntrl
    cases hcntrl
  · exact hmem (List.mem_map_of_mem hesc)

theorem escapes_named {c : Char} (hc : c ∈ escapes) : ∃ p ∈ named_escapes, p.2 = c := by
  have hsub : escapes ⊆ named_escapes.map Prod.snd := by simp [escapes, named_escapes]
  exact List.mem_map.mp (hsub hc)

/-- The decoder over one piece of the encoder's output. -/
theorem unescape_piece (c : UInt8) (res t : Bytes) :
    (unnamed_control cs c → ∃ e, unescape_loop cs res (escape_char cs c ++ t) = .error e) ∧
    (¬ unnamed_control cs c →
      unescape_loop cs res (escape_char cs c ++ t) = unescape_loop cs (res ++ [c]) t) := by
  by_cases hnamed : ∃ p ∈ named_escapes, c = cs.code p.2
  · obtain ⟨p, hp, rfl⟩ := hnamed
    refine ⟨fun h => absurd h (not_unnamed_of_named cs hp), fun _ => ?_⟩
    rw [escape_named cs hp, List.cons_append, List.cons_append, List.nil_append]
    exact unescape_named cs hp res t
  · have hother : ∀ p ∈ named_escapes, c ≠ cs.code p.2 := fun p hp hc => hnamed ⟨p, hp, hc⟩
    have hmem : c ∉ escapes.map cs.code := by
      intro hc
      obtain ⟨a, ha, rfl⟩ := List.mem_map.mp hc
      obtain ⟨p, hp, rfl⟩ := escapes_named ha
      exact hother p hp rfl
    rw [escape_other cs hother]
    by_cases hcntrl : cs.iscntrl c = true
    · simp only [hcntrl, if_true]
      exact ⟨fun _ => unescape_fffd cs res t, fun h => absurd ⟨hcntrl, hmem⟩ h⟩
    · rw [if_neg hcntrl]
      refine ⟨fun h => absurd h.1 hcntrl, fun _ => ?_⟩
      exact unescape_raw cs (hother ('\\', '\\') (by decide)) res t

theorem unescape_loop_escape (s res : Bytes) :
    ((∃ c ∈ s, unnamed_control cs c) →
      ∃ e, unescape_loop cs res (escape_json_string cs s) = .error e) ∧
    ((¬ ∃ c ∈ s, unnamed_control cs c) →
      unescape_loop cs res (escape_json_string cs s) = .ok (res ++ s)) := by
  induction s generalizing res with
  | nil => simp [escape_json_string, unescape_loop]
  | cons c s ih =>
    have hcons : escape_json_string cs (c :: s) =
        escape_char cs c ++ escape_json_string cs s := rfl
    obtain ⟨hbad, hgood⟩ := unescape_piece cs c res (escape_json_string cs s)
    rw [hcons]
    by_cases hc : unnamed_control cs c
    · exact ⟨fun _ => hbad hc, fun h => absurd ⟨c, by simp, hc⟩ h⟩
    · rw [hgood hc]
      simpa [hc] using ih (res ++ [c])

/-- A string survives the round trip when its control characters all have a named
escape; any other control character makes the decoder fail. -/
theorem unescape_escape (s : Bytes) :
    ((∀ c ∈ s, cs.iscntrl c = true → c ∈ escapes.map cs.code) →
      unescape_json_string cs (escape_json_string cs s) = .ok s) ∧
    ((∃ c ∈ s, cs.iscntrl c = true ∧ c ∉ escapes.map cs.code) →
      ∃ e, unescape_json_string cs (escape_json_string cs s) = .error e) := by
  obtain ⟨hbad, hgood⟩ := unescape_loop_escape cs s []
  refine ⟨fun h => ?_, hbad⟩
  have hnone : ¬ ∃ c ∈ s, unnamed_control cs c := fun ⟨c, hc, hcntrl, hmem⟩ => hmem (h c hc hcntrl)
  simpa [unescape_json_string] using hgood hnone

/-- On IBM-1047: a quote and a new line come back, `X'00'` is rejected. -/
theorem unescape_escape_ibm1047 :
    unescape_json_string ibm1047 (escape_json_string ibm1047 [0x7f, 0x15]) = .ok [0x7f, 0x15] ∧
    ∃ e, unescape_json_string ibm1047 (escape_json_string ibm1047 [0x00]) = .error e :=
  ⟨(unescape_escape ibm1047 [0x7f, 0x15]).1 (forall_mem_of_all (by decide)),
    (unescape_escape ibm1047 [0x00]).2 (by decide)⟩

end Zowex.zjson
