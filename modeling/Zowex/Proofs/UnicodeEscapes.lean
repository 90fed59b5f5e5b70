import Zowex.Proofs.HexText
import Zowex.Proofs.JsonString

/-! The `\u` escapes of the decoder against those of JSON. The four characters go to `strtoul`,
which takes blanks, a sign and `0x` before its digits. -/

namespace Zowex.zjson

open zds

variable (cs : Charset)

/-- What an escape other than `\u` is read as. An unknown one stays as it is. -/
def simple_escape (e : UInt8) : Bytes :=
  if e = cs.code '"' then [cs.code '"']
  else if e = cs.code '\\' then [cs.code '\\']
  else if e = cs.code '/' then [cs.code '/']
  else if e = cs.code 'b' then [cs.code '\x08']
  else if e = cs.code 'f' then [cs.code '\x0c']
  else if e = cs.code 'n' then [cs.code '\n']
  else if e = cs.code 'r' then [cs.code '\r']
  else if e = cs.code 't' then [cs.code '\t']
  else [cs.code '\\', e]

/-- Four digits in base 16. -/
def FourDigits (window : Bytes) : Prop :=
  window.length = 4 ∧ ∀ c ∈ window, (cs.hex_digit c).isSome = true

/-- Texts and what they are read as, with the `\u` escapes of JSON that stand for one byte, which
is no control character. -/
inductive Unescapes : Bytes → Bytes → Prop
  | nil : Unescapes [] []
  | backslash : Unescapes [cs.code '\\'] [cs.code '\\']
  | plain {c : UInt8} {s out : Bytes} (other : c ≠ cs.code '\\') (h : Unescapes s out) :
      Unescapes (c :: s) (c :: out)
  | simple {e : UInt8} {s out : Bytes} (other : e ≠ cs.code 'u') (h : Unescapes s out) :
      Unescapes (cs.code '\\' :: e :: s) (simple_escape cs e ++ out)
  | hex {digits s out : Bytes} (four : FourDigits cs digits) (small : hex_value cs digits < 256)
      (visible : cs.iscntrl (UInt8.ofNat (hex_value cs digits)) = false) (h : Unescapes s out) :
      Unescapes (cs.code '\\' :: cs.code 'u' :: (digits ++ s))
        (UInt8.ofNat (hex_value cs digits) :: out)

/-- Every text is read as JSON reads it, or fails as there. -/
def EscapesExactly (text : Bytes) : Prop :=
  ∀ out, unescape_json_string cs text = .ok out ↔ Unescapes cs text out

/-- The four characters behind each `\u`, or the fewer ones there are. -/
def windows : Bytes → List Bytes
  | [] => []
  | [_] => []
  | c :: e :: s =>
    if c = cs.code '\\' then
      if e = cs.code 'u' then
        s.take 4 :: windows (if 4 ≤ s.length then s.drop 4 else s)
      else windows s
    else windows (e :: s)
termination_by s => s.length
decreasing_by
  all_goals simp only [List.length_cons]
  · split_ifs
    · simp only [List.length_drop]; omega
    · omega
  all_goals omega

/-- Four characters that `strtoul` does not read to their end, or as no byte that may stand in a
text. -/
def Rejected (window : Bytes) : Prop :=
  window.length = 4 ∧
    ¬ ((strtoul16 cs window).2 = 4 ∧ (strtoul16 cs window).1 < 256 ∧
      cs.iscntrl (UInt8.ofNat (strtoul16 cs window).1) = false)

/-! The ways a text goes on. -/

theorem scan_induction {P : Bytes → Prop} (nil : P []) (backslash : P [cs.code '\\'])
    (plain : ∀ c s, c ≠ cs.code '\\' → P s → P (c :: s))
    (simple : ∀ e s, e ≠ cs.code 'u' → P s → P (cs.code '\\' :: e :: s))
    (short : ∀ s, s.length < 4 → P s → P (cs.code '\\' :: cs.code 'u' :: s))
    (window : ∀ w s, w.length = 4 → P s → P (cs.code '\\' :: cs.code 'u' :: (w ++ s)))
    (s : Bytes) : P s := by
  induction hn : s.length using Nat.strong_induction_on generalizing s with
  | _ n ih =>
    match s with
    | [] => exact nil
    | c :: s =>
      by_cases escape : c = cs.code '\\'
      · subst escape
        match s with
        | [] => exact backslash
        | e :: s =>
          simp only [List.length_cons] at hn
          by_cases u : e = cs.code 'u'
          · subst u
            by_cases long : 4 ≤ s.length
            · rw [← List.take_append_drop 4 s]
              refine window _ _ (List.length_take_of_le long) (ih _ ?_ _ rfl)
              rw [List.length_drop]
              omega
            · exact short s (by omega) (ih _ (by omega) _ rfl)
          · exact simple e s u (ih _ (by omega) _ rfl)
      · exact plain c s escape (ih _ (by rw [← hn]; exact Nat.lt_succ_self _) _ rfl)

theorem windows_plain {c : UInt8} (other : c ≠ cs.code '\\') (s : Bytes) :
    windows cs (c :: s) = windows cs s := by
  cases s with
  | nil => rw [windows, windows]
  | cons e s => rw [windows, if_neg other]

theorem windows_simple {e : UInt8} (other : e ≠ cs.code 'u') (s : Bytes) :
    windows cs (cs.code '\\' :: e :: s) = windows cs s := by
  rw [windows, if_pos rfl, if_neg other]

theorem windows_short {s : Bytes} (short : s.length < 4) :
    windows cs (cs.code '\\' :: cs.code 'u' :: s) = s :: windows cs s := by
  rw [windows, if_pos rfl, if_pos rfl, if_neg (by omega), List.take_of_length_le short.le]

theorem windows_window {w : Bytes} (four : w.length = 4) (s : Bytes) :
    windows cs (cs.code '\\' :: cs.code 'u' :: (w ++ s)) = w :: windows cs s := by
  rw [windows, if_pos rfl, if_pos rfl, if_pos (by simp [four]), List.take_left' four,
    List.drop_left' four]

theorem unescape_simple {e : UInt8} (other : e ≠ cs.code 'u') (res s : Bytes) :
    unescape_loop cs res (cs.code '\\' :: e :: s) =
      unescape_loop cs (res ++ simple_escape cs e) s := by
  rw [unescape_loop, if_pos rfl, if_neg other, simple_escape]
  split_ifs <;> rfl

theorem u_escape (res s : Bytes) :
    unescape_loop cs res (cs.code '\\' :: cs.code 'u' :: s) =
      if 4 ≤ s.length then do
        let byte ← unescape_hex cs (s.take 4)
        unescape_loop cs (res ++ [byte]) (s.drop 4)
      else unescape_loop cs (res ++ [cs.code '\\', cs.code 'u']) s := by
  rw [unescape_loop, if_pos rfl]
  simp (disch := decide) only [cs.code_eq_iff, Char.reduceEq, ↓reduceIte]

theorem unescape_short {s : Bytes} (short : s.length < 4) (res : Bytes) :
    unescape_loop cs res (cs.code '\\' :: cs.code 'u' :: s) =
      unescape_loop cs (res ++ [cs.code '\\', cs.code 'u']) s := by
  rw [u_escape, if_neg (by omega)]

theorem unescape_window {w : Bytes} (four : w.length = 4) (res s : Bytes) :
    unescape_loop cs res (cs.code '\\' :: cs.code 'u' :: (w ++ s)) =
      (unescape_hex cs w).bind fun byte => unescape_loop cs (res ++ [byte]) s := by
  rw [u_escape, if_pos (by simp [four]), List.take_left' four, List.drop_left' four]
  rfl

theorem unescape_hex_eq {w : Bytes} (four : w.length = 4) :
    (¬ Rejected cs w → unescape_hex cs w = .ok (UInt8.ofNat (strtoul16 cs w).1)) ∧
      (Rejected cs w → ∃ e, unescape_hex cs w = .error e) := by
  unfold Rejected unescape_hex
  dsimp only
  rw [not_and_not_right]
  constructor
  · intro accepted
    obtain ⟨whole, small, visible⟩ := accepted four
    rw [if_neg (by simp [visible]), if_pos ⟨whole, small⟩]
  · rintro ⟨-, rejected⟩
    split_ifs with control byte
    · exact ⟨_, rfl⟩
    · exact absurd ⟨byte.1, byte.2, by simpa [byte] using control⟩ rejected
    · exact ⟨_, rfl⟩

/-! The decoder fails at a rejected window, and nowhere else. -/

theorem unescape_ok_iff (s res : Bytes) :
    (∃ out, unescape_loop cs res s = .ok out) ↔ ∀ w ∈ windows cs s, ¬ Rejected cs w := by
  induction s using scan_induction cs generalizing res with
  | nil => simp [unescape_loop, windows]
  | backslash => simp [unescape_loop, windows]
  | plain c s other ih => rw [unescape_raw cs other, windows_plain cs other, ih]
  | simple e s other ih => rw [unescape_simple cs other, windows_simple cs other, ih]
  | short s short ih =>
    have kept : ¬ Rejected cs s := fun rejected => absurd rejected.1 short.ne
    rw [unescape_short cs short, windows_short cs short, ih, List.forall_mem_cons]
    exact (and_iff_right kept).symm
  | window w s four ih =>
    rw [unescape_window cs four, windows_window cs four, List.forall_mem_cons]
    by_cases rejected : Rejected cs w
    · obtain ⟨e, failed⟩ := (unescape_hex_eq cs four).2 rejected
      rw [failed]
      exact iff_of_false (by simp [Except.bind]) fun h => h.1 rejected
    · rw [(unescape_hex_eq cs four).1 rejected]
      exact (ih _).trans (and_iff_right rejected).symm

theorem FourDigits.strtoul16 {w : Bytes} (h : FourDigits cs w) :
    strtoul16 cs w = (hex_value cs w, 4) := by
  rw [strtoul16_digits cs h.2 (by rintro rfl; exact absurd h.1 (by decide)), h.1]

theorem FourDigits.accepted_iff {w : Bytes} (h : FourDigits cs w) :
    ¬ Rejected cs w ↔
      hex_value cs w < 256 ∧ cs.iscntrl (UInt8.ofNat (hex_value cs w)) = false := by
  unfold Rejected
  rw [h.strtoul16, not_and_not_right]
  exact ⟨fun accepted => (accepted h.1).2, fun accepted _ => ⟨rfl, accepted⟩⟩

theorem Unescapes.windows {s out : Bytes} (h : Unescapes cs s out) :
    ∀ w ∈ windows cs s, FourDigits cs w ∧ ¬ Rejected cs w := by
  induction h with
  | nil => simp [zjson.windows]
  | backslash => simp [zjson.windows]
  | plain other h ih => rwa [windows_plain cs other]
  | simple other h ih => rwa [windows_simple cs other]
  | hex four small visible h ih =>
    rw [windows_window cs four.1, List.forall_mem_cons]
    exact ⟨⟨four, (four.accepted_iff cs).mpr ⟨small, visible⟩⟩, ih⟩

/-- The decoder reads what JSON reads. -/
theorem Unescapes.read {s out : Bytes} (h : Unescapes cs s out) (res : Bytes) :
    unescape_loop cs res s = .ok (res ++ out) := by
  induction h generalizing res with
  | nil => rw [unescape_loop, List.append_nil]
  | backslash => rw [unescape_loop]
  | plain other h ih =>
    rw [unescape_raw cs other, ih, List.append_assoc]
    rfl
  | simple other h ih => rw [unescape_simple cs other, ih, List.append_assoc]
  | hex four small visible h ih =>
    have accepted := (four.accepted_iff cs).mpr ⟨small, visible⟩
    rw [unescape_window cs four.1, (unescape_hex_eq cs four.1).1 accepted, four.strtoul16]
    refine (ih _).trans ?_
    rw [List.append_assoc]
    rfl

/-- Over windows of four digits it reads nothing else. -/
theorem unescapes_of_read {s res r : Bytes} (digits : ∀ w ∈ windows cs s, FourDigits cs w)
    (h : unescape_loop cs res s = .ok r) : ∃ out, r = res ++ out ∧ Unescapes cs s out := by
  induction s using scan_induction cs generalizing res with
  | nil =>
    rw [unescape_loop, Except.ok.injEq] at h
    exact ⟨[], by rw [List.append_nil, h], .nil⟩
  | backslash =>
    rw [unescape_loop, Except.ok.injEq] at h
    exact ⟨[cs.code '\\'], h.symm, .backslash⟩
  | plain c s other ih =>
    rw [unescape_raw cs other] at h
    rw [windows_plain cs other] at digits
    obtain ⟨out, rfl, unescapes⟩ := ih digits h
    exact ⟨c :: out, by rw [List.append_assoc]; rfl, .plain other unescapes⟩
  | simple e s other ih =>
    rw [unescape_simple cs other] at h
    rw [windows_simple cs other] at digits
    obtain ⟨out, rfl, unescapes⟩ := ih digits h
    exact ⟨simple_escape cs e ++ out, List.append_assoc _ _ _, .simple other unescapes⟩
  | short s short ih =>
    rw [windows_short cs short, List.forall_mem_cons] at digits
    exact absurd digits.1.1 short.ne
  | window w s four ih =>
    rw [windows_window cs four, List.forall_mem_cons] at digits
    have accepted : ¬ Rejected cs w := fun rejected => by
      obtain ⟨e, failed⟩ := (unescape_hex_eq cs four).2 rejected
      rw [unescape_window cs four, failed] at h
      cases h
    obtain ⟨small, visible⟩ := (digits.1.accepted_iff cs).mp accepted
    rw [unescape_window cs four, (unescape_hex_eq cs four).1 accepted,
      digits.1.strtoul16] at h
    obtain ⟨out, rfl, unescapes⟩ := ih digits.2 h
    exact ⟨_, by rw [List.append_assoc]; rfl, .hex digits.1 small visible unescapes⟩

/-- A text is read as in JSON when only digits stand behind each `\u`, or else when one of the
windows is refused. -/
theorem escapes_exactly_iff (text : Bytes) :
    EscapesExactly cs text ↔
      (∀ w ∈ windows cs text, FourDigits cs w) ∨ ∃ w ∈ windows cs text, Rejected cs w := by
  constructor
  · intro exactly
    by_contra wrong
    push Not at wrong
    obtain ⟨⟨w, hw, digits⟩, kept⟩ := wrong
    obtain ⟨out, read⟩ := (unescape_ok_iff cs text []).mpr kept
    exact digits (((exactly out).mp read).windows cs w hw).1
  · rintro (digits | ⟨w, hw, rejected⟩) out
    · constructor
      · intro h
        obtain ⟨out, rfl, unescapes⟩ := unescapes_of_read cs digits h
        exact unescapes
      · exact fun unescapes => unescapes.read cs []
    · constructor
      · exact fun read => absurd rejected ((unescape_ok_iff cs text []).mp ⟨out, read⟩ w hw)
      · exact fun unescapes => absurd rejected (unescapes.windows cs w hw).2

/-- A blank and a sign pass for digits. -/
theorem signed_escape_read : ¬ EscapesExactly ibm1047 (ibm1047.str "\\u +C1") := by
  intro exactly
  have text : ibm1047.str "\\u +C1" =
      ibm1047.code '\\' :: ibm1047.code 'u' :: (ibm1047.str " +C1" ++ []) := rfl
  have four : (ibm1047.str " +C1").length = 4 := rfl
  have byte : unescape_hex ibm1047 (ibm1047.str " +C1") = .ok (ibm1047.code 'A') := by
    decide +kernel
  have read : unescape_json_string ibm1047 (ibm1047.str "\\u +C1") =
      .ok [ibm1047.code 'A'] := by
    rw [unescape_json_string, text, unescape_window ibm1047 four, byte]
    exact unescape_nil ibm1047 _
  have inside : ibm1047.str " +C1" ∈ windows ibm1047 (ibm1047.str "\\u +C1") := by
    rw [text, windows_window ibm1047 four]
    exact List.mem_cons_self
  have digits := (((exactly _).mp read).windows ibm1047 _ inside).1.2
  exact absurd (digits (ibm1047.code '+') (by decide +kernel)) (by decide +kernel)

end Zowex.zjson
