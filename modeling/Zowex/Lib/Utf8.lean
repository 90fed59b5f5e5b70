import Mathlib.Data.List.Basic
import Mathlib.Tactic

/-! UTF-8 texts and a decoder that puts U+FFFD where the bytes are none: one for every byte that
cannot start or continue a character, and one for a character that breaks off. Over the chunks of
a valid text, decoded one by one, exactly the characters cut by a chunk are lost. -/

namespace Utf8

def encode (text : List Char) : List UInt8 := text.flatMap String.utf8EncodeChar

theorem encode_cons (c : Char) (text : List Char) :
    encode (c :: text) = String.utf8EncodeChar c ++ encode text :=
  List.flatMap_cons

def replacement : Char := '\uFFFD'

/-- Between two characters, or inside one: how many bytes it owes, the least and the greatest
value of the next one, and the code point so far. -/
inductive State
  | start
  | inside (owed low high code : ℕ)
  deriving DecidableEq, Repr

/-- The first byte of a character. -/
def first (b : UInt8) : List Char × State :=
  let n := b.toNat
  if n < 0x80 then ([Char.ofNat n], .start)
  else if 0xC2 ≤ n ∧ n ≤ 0xDF then ([], .inside 1 0x80 0xBF (n - 0xC0))
  else if 0xE0 ≤ n ∧ n ≤ 0xEF then
    -- no overlong forms, and no surrogates
    ([], .inside 2 (if n = 0xE0 then 0xA0 else 0x80) (if n = 0xED then 0x9F else 0xBF) (n - 0xE0))
  else if 0xF0 ≤ n ∧ n ≤ 0xF4 then
    ([], .inside 3 (if n = 0xF0 then 0x90 else 0x80) (if n = 0xF4 then 0x8F else 0xBF) (n - 0xF0))
  else ([replacement], .start)

def push : State → UInt8 → List Char × State
  | .start, b => first b
  | .inside owed low high code, b =>
    if low ≤ b.toNat ∧ b.toNat ≤ high then
      let code := code * 64 + (b.toNat - 0x80)
      if owed = 1 then ([Char.ofNat code], .start)
      else ([], .inside (owed - 1) 0x80 0xBF code)
    else (replacement :: (first b).1, (first b).2)

def decode_from : State → List UInt8 → List Char
  | .start, [] => []
  | .inside .., [] => [replacement]
  | s, b :: bs => (push s b).1 ++ decode_from (push s b).2 bs

def decode (bytes : List UInt8) : List Char := decode_from .start bytes

@[simp] theorem decode_nil : decode [] = [] := rfl

def continuation (b : UInt8) : Bool := 0x80 ≤ b.toNat && b.toNat < 0xC0

/-- In the state `s` these bytes complete the character, and no fewer of them do. -/
def Completes (c : Char) : State → List UInt8 → Prop
  | _, [] => False
  | s, [b] => push s b = ([c], .start)
  | s, b :: bs => ∃ owed low high code, push s b = ([], .inside owed low high code) ∧
      Completes c (.inside owed low high code) bs

theorem toNat_ofNat_of_lt {n : ℕ} (h : n < 256) : (UInt8.ofNat n).toNat = n := by
  simpa using h

theorem completes_last {c : Char} {low high code n : ℕ} (hn : n < 256)
    (hlow : low ≤ n) (hhigh : n ≤ high) (hcode : code * 64 + (n - 0x80) = c.toNat) :
    Completes c (.inside 1 low high code) [UInt8.ofNat n] := by
  rw [Completes, push, toNat_ofNat_of_lt hn, if_pos ⟨hlow, hhigh⟩, if_pos rfl, hcode,
    Char.ofNat_toNat]

theorem completes_next {c : Char} {owed low high code n : ℕ} {bs : List UInt8} (hn : n < 256)
    (hlow : low ≤ n) (hhigh : n ≤ high) (hbs : bs ≠ [])
    (h : Completes c (.inside (owed + 1) 0x80 0xBF (code * 64 + (n - 0x80))) bs) :
    Completes c (.inside (owed + 2) low high code) (UInt8.ofNat n :: bs) := by
  rcases bs with _ | ⟨b, bs⟩
  · exact absurd rfl hbs
  · refine ⟨owed + 1, 0x80, 0xBF, code * 64 + (n - 0x80), ?_, h⟩
    rw [push, toNat_ofNat_of_lt hn, if_pos ⟨hlow, hhigh⟩, if_neg (by omega)]
    rfl

theorem completes_first {c : Char} {owed low high code : ℕ} {b : UInt8} {bs : List UInt8}
    (hbs : bs ≠ []) (hfirst : first b = ([], .inside owed low high code))
    (h : Completes c (.inside owed low high code) bs) : Completes c .start (b :: bs) := by
  rcases bs with _ | ⟨b', bs⟩
  · exact absurd rfl hbs
  · exact ⟨owed, low, high, code, hfirst, h⟩

theorem first_two {n : ℕ} (hn : 0xC2 ≤ n) (hn' : n ≤ 0xDF) :
    first (UInt8.ofNat n) = ([], .inside 1 0x80 0xBF (n - 0xC0)) := by
  rw [first, toNat_ofNat_of_lt (by omega), if_neg (by omega), if_pos ⟨hn, hn'⟩]

theorem first_three {n : ℕ} (hn : 0xE0 ≤ n) (hn' : n ≤ 0xEF) :
    first (UInt8.ofNat n) = ([], .inside 2 (if n = 0xE0 then 0xA0 else 0x80)
      (if n = 0xED then 0x9F else 0xBF) (n - 0xE0)) := by
  rw [first, toNat_ofNat_of_lt (by omega), if_neg (by omega), if_neg (by omega),
    if_pos ⟨hn, hn'⟩]

theorem first_four {n : ℕ} (hn : 0xF0 ≤ n) (hn' : n ≤ 0xF4) :
    first (UInt8.ofNat n) = ([], .inside 3 (if n = 0xF0 then 0x90 else 0x80)
      (if n = 0xF4 then 0x8F else 0xBF) (n - 0xF0)) := by
  rw [first, toNat_ofNat_of_lt (by omega), if_neg (by omega), if_neg (by omega),
    if_neg (by omega), if_pos ⟨hn, hn'⟩]

theorem completes_encode (c : Char) : Completes c .start (String.utf8EncodeChar c) := by
  have hvalid : c.toNat < 0xD800 ∨ 0xDFFF < c.toNat ∧ c.toNat < 0x110000 := c.valid
  change Completes c .start (if c.toNat ≤ 0x7f then [UInt8.ofNat c.toNat]
    else if c.toNat ≤ 0x7ff then
      [UInt8.ofNat (c.toNat / 64 % 0x20 + 0xc0), UInt8.ofNat (c.toNat % 0x40 + 0x80)]
    else if c.toNat ≤ 0xffff then
      [UInt8.ofNat (c.toNat / 4096 % 0x10 + 0xe0), UInt8.ofNat (c.toNat / 64 % 0x40 + 0x80),
        UInt8.ofNat (c.toNat % 0x40 + 0x80)]
    else [UInt8.ofNat (c.toNat / 262144 % 0x08 + 0xf0),
      UInt8.ofNat (c.toNat / 4096 % 0x40 + 0x80), UInt8.ofNat (c.toNat / 64 % 0x40 + 0x80),
      UInt8.ofNat (c.toNat % 0x40 + 0x80)])
  split_ifs with h1 h2 h3
  · rw [Completes, push, first, toNat_ofNat_of_lt (by omega), if_pos (by omega), Char.ofNat_toNat]
  · refine completes_first (List.cons_ne_nil _ _) (first_two (by omega) (by omega)) ?_
    exact completes_last (by omega) (by omega) (by omega) (by omega)
  · refine completes_first (List.cons_ne_nil _ _) (first_three (by omega) (by omega)) ?_
    refine completes_next (by omega) (by split_ifs <;> omega) (by split_ifs <;> omega)
      (List.cons_ne_nil _ _) ?_
    exact completes_last (by omega) (by omega) (by omega) (by omega)
  · refine completes_first (List.cons_ne_nil _ _) (first_four (by omega) (by omega)) ?_
    refine completes_next (by omega) (by split_ifs <;> omega) (by split_ifs <;> omega)
      (List.cons_ne_nil _ _) ?_
    refine completes_next (by omega) (by omega) (by omega) (List.cons_ne_nil _ _) ?_
    exact completes_last (by omega) (by omega) (by omega) (by omega)

theorem Completes.decode_append {c : Char} {s : State} {bs : List UInt8} (h : Completes c s bs)
    (more : List UInt8) : decode_from s (bs ++ more) = c :: decode more := by
  induction bs generalizing s with
  | nil => exact h.elim
  | cons b bs ih =>
    rcases bs with _ | ⟨b', bs⟩
    · have hpush : push s b = ([c], .start) := h
      rw [List.singleton_append, decode_from, hpush]
      rfl
    · obtain ⟨owed, low, high, code, hpush, hrest⟩ := h
      rw [List.cons_append, decode_from, hpush, ih hrest, List.nil_append]

/-- A character that breaks off is decoded to one replacement. -/
theorem Completes.decode_cut {c : Char} {s : State} {p q : List UInt8} (h : Completes c s (p ++ q))
    (hp : p ≠ []) (hq : q ≠ []) : decode_from s p = [replacement] := by
  induction p generalizing s with
  | nil => exact absurd rfl hp
  | cons b p ih =>
    obtain ⟨b', rest, hrest⟩ := List.exists_cons_of_ne_nil
      (List.append_ne_nil_of_right_ne_nil p hq)
    rw [List.cons_append, hrest] at h
    obtain ⟨owed, low, high, code, hpush, hinside⟩ := h
    rw [← hrest] at hinside
    rw [decode_from, hpush, List.nil_append]
    rcases p with _ | ⟨b'', p⟩
    · rfl
    · exact ih hinside (List.cons_ne_nil _ _)

theorem utf8EncodeChar_tail (c : Char) :
    ∀ b ∈ (String.utf8EncodeChar c).tail, continuation b = true := by
  have htail (n : ℕ) : continuation (UInt8.ofNat (n % 0x40 + 0x80)) = true := by
    rw [continuation, toNat_ofNat_of_lt (by omega), Bool.and_eq_true, decide_eq_true_eq,
      decide_eq_true_eq]
    omega
  rw [String.utf8EncodeChar]
  split_ifs
  · exact fun b hb => absurd hb List.not_mem_nil
  · exact List.forall_mem_singleton.mpr (htail _)
  · exact List.forall_mem_cons.mpr ⟨htail _, List.forall_mem_singleton.mpr (htail _)⟩
  · exact List.forall_mem_cons.mpr
      ⟨htail _, List.forall_mem_cons.mpr ⟨htail _, List.forall_mem_singleton.mpr (htail _)⟩⟩

theorem utf8EncodeChar_head {c : Char} {b : UInt8} {bs : List UInt8}
    (h : String.utf8EncodeChar c = b :: bs) : continuation b = false := by
  have hhead {n : ℕ} (hn : n < 0x80 ∨ 0xC0 ≤ n) (hlt : n < 256) :
      continuation (UInt8.ofNat n) = false := by
    rw [continuation, toNat_ofNat_of_lt hlt, Bool.and_eq_false_iff, decide_eq_false_iff_not,
      decide_eq_false_iff_not]
    omega
  rw [String.utf8EncodeChar] at h
  split_ifs at h
  all_goals
    rw [← (List.cons.inj h).1]
    exact hhead (by omega) (by omega)

theorem push_continuation {b : UInt8} (h : continuation b = true) :
    push .start b = ([replacement], .start) := by
  simp only [continuation, Bool.and_eq_true, decide_eq_true_eq] at h
  rw [push, first, if_neg (by omega), if_neg (by omega), if_neg (by omega), if_neg (by omega)]

theorem decode_continuations {q : List UInt8} (h : ∀ b ∈ q, continuation b = true)
    (more : List UInt8) :
    decode (q ++ more) = List.replicate q.length replacement ++ decode more := by
  induction q with
  | nil => rfl
  | cons b q ih =>
    rw [List.cons_append, decode, decode_from, push_continuation (h b List.mem_cons_self),
      ← decode, ih fun b' hb => h b' (List.mem_cons_of_mem _ hb)]
    rfl

theorem decode_encode_append (text : List Char) (more : List UInt8) :
    decode (encode text ++ more) = text ++ decode more := by
  induction text with
  | nil => rfl
  | cons c text ih =>
    rw [encode_cons, List.append_assoc, decode, (completes_encode c).decode_append, ih,
      List.cons_append]

theorem decode_encode (text : List Char) : decode (encode text) = text := by
  rw [← List.append_nil (encode text), decode_encode_append]
  exact List.append_nil text

/-- A cut through an encoded text is between two characters or through one. -/
theorem encode_cut {text : List Char} {a r : List UInt8} (h : encode text = a ++ r) :
    (∃ t₁ t₂, text = t₁ ++ t₂ ∧ a = encode t₁ ∧ r = encode t₂) ∨
      ∃ t₁ c t₂ p q, text = t₁ ++ c :: t₂ ∧ a = encode t₁ ++ p ∧ r = q ++ encode t₂ ∧
        String.utf8EncodeChar c = p ++ q ∧ p ≠ [] ∧ q ≠ [] := by
  induction text generalizing a with
  | nil =>
    obtain ⟨rfl, rfl⟩ := List.append_eq_nil_iff.mp h.symm
    exact .inl ⟨[], [], rfl, rfl, rfl⟩
  | cons c text ih =>
    rw [encode_cons] at h
    rcases List.append_eq_append_iff.mp h with ⟨a', rfl, htext⟩ | ⟨q, hc, rfl⟩
    · rcases ih htext with ⟨t₁, t₂, rfl, rfl, rfl⟩ | ⟨t₁, c', t₂, p, q, rfl, rfl, rfl, hc'⟩
      · exact .inl ⟨c :: t₁, t₂, rfl, rfl, rfl⟩
      · refine .inr ⟨c :: t₁, c', t₂, p, q, rfl, ?_, rfl, hc'⟩
        rw [encode_cons, List.append_assoc]
    · rcases eq_or_ne a [] with rfl | ha
      · refine .inl ⟨[], c :: text, rfl, rfl, ?_⟩
        rw [encode_cons, hc, List.nil_append]
      rcases eq_or_ne q [] with rfl | hq
      · refine .inl ⟨[c], text, rfl, ?_, rfl⟩
        rw [encode_cons, hc, List.append_nil, encode, List.flatMap_nil, List.append_nil]
      · exact .inr ⟨[], c, text, a, q, rfl, rfl, rfl, hc, ha, hq⟩

/-- The second text has replacements, two at least, for some of the characters of the first that
take several bytes. -/
inductive Garbled : List Char → List Char → Prop
  | nil : Garbled [] []
  | keep (c : Char) {text garbled : List Char} :
      Garbled text garbled → Garbled (c :: text) (c :: garbled)
  | lose {c : Char} (k : ℕ) {text garbled : List Char} : 1 < (String.utf8EncodeChar c).length →
      Garbled text garbled → Garbled (c :: text) (List.replicate (k + 2) replacement ++ garbled)

theorem Garbled.append_left (kept : List Char) {text garbled : List Char}
    (h : Garbled text garbled) : Garbled (kept ++ text) (kept ++ garbled) := by
  induction kept with
  | nil => exact h
  | cons c kept ih => exact ih.keep c

theorem Garbled.length_filter_le {p : Char → Bool} (hp : p replacement = true)
    {text garbled : List Char} (h : Garbled text garbled) :
    (text.filter p).length ≤ (garbled.filter p).length := by
  induction h with
  | nil => exact Nat.le_refl 0
  | keep c _ ih =>
    rw [List.filter_cons, List.filter_cons]
    split_ifs
    · exact Nat.succ_le_succ ih
    · exact ih
  | lose k _ _ ih =>
    rw [List.filter_append, List.filter_replicate_of_pos hp, List.length_append,
      List.length_replicate, List.filter_cons]
    split_ifs
    · rw [List.length_cons]
      omega
    · omega

theorem Garbled.length_le {text garbled : List Char} (h : Garbled text garbled) :
    text.length ≤ garbled.length := by
  simpa using h.length_filter_le (p := fun _ => true) rfl

/-- Nothing is lost where nothing is added. -/
theorem Garbled.eq_of_length_filter_le {p : Char → Bool} (hp : p replacement = true)
    {text garbled : List Char} (h : Garbled text garbled)
    (hle : (garbled.filter p).length ≤ (text.filter p).length) : garbled = text := by
  induction h with
  | nil => rfl
  | keep c _ ih =>
    rw [List.filter_cons, List.filter_cons] at hle
    split_ifs at hle
    · rw [ih (Nat.le_of_succ_le_succ hle)]
    · rw [ih hle]
  | @lose c k text garbled _ hgarbled _ =>
    have hless := hgarbled.length_filter_le hp
    have hcons : ((c :: text).filter p).length ≤ (text.filter p).length + 1 := by
      rw [List.filter_cons]
      split_ifs
      · rw [List.length_cons]
      · exact Nat.le_succ _
    rw [List.filter_append, List.filter_replicate_of_pos hp, List.length_append,
      List.length_replicate] at hle
    omega

theorem Garbled.getLast? {c : Char} (hc : (String.utf8EncodeChar c).length ≤ 1)
    {text garbled : List Char} (h : Garbled text garbled) (hlast : text.getLast? = some c) :
    garbled.getLast? = some c := by
  induction h with
  | nil => cases hlast
  | keep c' hgarbled ih =>
    cases hgarbled with
    | nil => exact hlast
    | keep => exact ih hlast
    | lose => exact ih hlast
  | @lose c' k text garbled hlong hgarbled ih =>
    rcases text with _ | ⟨c'', text⟩
    · obtain rfl : c' = c := Option.some.inj hlast
      exact absurd hlong (Nat.not_lt.mpr hc)
    · rw [List.getLast?_append, ih hlast]
      rfl

/-- The chunk starts inside a character. -/
def starts_inside (chunk : List UInt8) : Bool := chunk.head?.any continuation

theorem starts_inside_append {q : List UInt8} (hq : ∀ b ∈ q, continuation b = true) (hne : q ≠ [])
    (more : List UInt8) : starts_inside (q ++ more) = true := by
  rcases q with _ | ⟨b, q⟩
  · exact absurd rfl hne
  · exact hq b List.mem_cons_self

theorem starts_inside_encode (text : List Char) : starts_inside (encode text) = false := by
  rcases text with _ | ⟨c, text⟩
  · rfl
  · rcases hc : String.utf8EncodeChar c with _ | ⟨b, bs⟩
    · exact absurd hc String.utf8EncodeChar_ne_nil
    · rw [encode_cons, hc]
      exact utf8EncodeChar_head hc

theorem decode_chunks_from {chunks : List (List UInt8)} {q : List UInt8} {text : List Char}
    (hq : ∀ b ∈ q, continuation b = true) (h : chunks.flatten = q ++ encode text) :
    ∃ garbled, Garbled text garbled ∧
      chunks.flatMap decode = List.replicate q.length replacement ++ garbled ∧
      ((∀ chunk ∈ chunks, starts_inside chunk = false) ↔ q = [] ∧ garbled = text) := by
  induction chunks generalizing q text with
  | nil =>
    obtain ⟨rfl, htext⟩ := List.append_eq_nil_iff.mp h.symm
    obtain rfl : text = [] := by
      rw [← decode_encode text, htext]
      rfl
    exact ⟨[], .nil, rfl, by simp⟩
  | cons chunk chunks ih =>
    rw [List.flatten_cons] at h
    rw [List.flatMap_cons, List.forall_mem_cons]
    rcases List.append_eq_append_iff.mp h with ⟨q', rfl, hrest⟩ | ⟨a, rfl, htext⟩
    · -- the chunk is inside the character that was cut
      obtain ⟨hchunk, hq'⟩ := List.forall_mem_append.mp hq
      obtain ⟨garbled, hgarbled, hdecode, halign⟩ := ih hq' hrest
      refine ⟨garbled, hgarbled, ?_, ?_⟩
      · have hone := decode_continuations hchunk []
        rw [List.append_nil, decode_nil, List.append_nil] at hone
        rw [hdecode, hone, List.length_append, ← List.replicate_append_replicate,
          List.append_assoc]
      · rcases eq_or_ne chunk [] with rfl | hne
        · rw [halign]
          exact and_iff_right rfl
        · have hstarts := starts_inside_append hchunk hne []
          rw [List.append_nil] at hstarts
          rw [hstarts]
          simp [hne]
    rw [decode_continuations hq]
    rcases encode_cut htext with ⟨t₁, t₂, rfl, rfl, hrest⟩ |
      ⟨t₁, c, t₂, p, q', rfl, rfl, hrest, hc, hp, hq'⟩
    · obtain ⟨garbled, hgarbled, hdecode, halign⟩ := ih (q := []) (by simp) hrest
      refine ⟨t₁ ++ garbled, hgarbled.append_left t₁, ?_, ?_⟩
      · rw [hdecode, decode_encode, List.append_assoc]
        rfl
      · rw [halign, List.append_cancel_left_eq]
        rcases eq_or_ne q [] with rfl | hne
        · rw [List.nil_append, starts_inside_encode]
          simp
        · rw [starts_inside_append hq hne]
          simp [hne]
    · obtain ⟨b, p', rfl⟩ := List.exists_cons_of_ne_nil hp
      have hcont : ∀ b ∈ q', continuation b = true := by
        intro b' hb'
        refine utf8EncodeChar_tail c b' ?_
        rw [hc]
        exact List.mem_append_right _ hb'
      obtain ⟨garbled, hgarbled, hdecode, halign⟩ := ih hcont hrest
      obtain ⟨k, hk⟩ : ∃ k, q'.length = k + 1 :=
        ⟨q'.length - 1, (Nat.succ_pred_eq_of_pos (List.length_pos_iff.mpr hq')).symm⟩
      have hlong : 1 < (String.utf8EncodeChar c).length := by
        rw [hc, List.length_append, List.length_cons]
        omega
      refine ⟨t₁ ++ (List.replicate (k + 2) replacement ++ garbled),
        (hgarbled.lose k hlong).append_left t₁, ?_, ?_⟩
      · have hcut : decode (b :: p') = [replacement] := by
          have hcompletes := completes_encode c
          rw [hc] at hcompletes
          exact hcompletes.decode_cut (List.cons_ne_nil _ _) hq'
        rw [hdecode, decode_encode_append, hcut, hk, List.replicate_succ (n := k + 1)]
        simp only [List.append_assoc, List.cons_append, List.nil_append]
      · constructor
        · intro hall
          exact absurd (halign.mp hall.2).1 hq'
        · rintro ⟨-, hsame⟩
          have hlength := congrArg List.length (List.append_cancel_left hsame)
          have hle := hgarbled.length_le
          rw [List.length_append, List.length_replicate, List.length_cons] at hlength
          omega

/-- A text decoded chunk by chunk, whatever the chunks; it is the text if no chunk starts inside a
character, and only then. -/
theorem decode_chunks {chunks : List (List UInt8)} {text : List Char}
    (h : chunks.flatten = encode text) :
    Garbled text (chunks.flatMap decode) ∧
      (chunks.flatMap decode = text ↔ ∀ chunk ∈ chunks, starts_inside chunk = false) := by
  obtain ⟨garbled, hgarbled, hdecode, halign⟩ := decode_chunks_from (q := []) (by simp) h
  rw [hdecode, halign]
  exact ⟨hgarbled, (and_iff_right rfl).symm⟩

end Utf8
