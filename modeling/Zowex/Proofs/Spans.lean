import Mathlib.Data.List.TakeWhile
import Zowex.Spec.Spans

/-! The tokens tile the input: each one reads a character and leaves the rest of the text, and
between them there are whitespace and comments only. -/

namespace Zowex.lexer

variable {rt : Runtime}

/-- A part of the text was read, and not nothing. -/
structure Consumes (text rest : Bytes) : Prop where
  suffix : rest <:+ text
  shorter : rest.length < text.length

theorem Consumes.cons {text rest : Bytes} (c : UInt8) (h : rest <:+ text) :
    Consumes (c :: text) rest where
  suffix := h.trans (List.suffix_cons c text)
  shorter := Nat.lt_succ_of_le h.length_le

theorem lex_digits_suffix (rt : Runtime) (base : Radix) (text : Bytes) :
    (lex_digits rt base text).2 <:+ text := by
  induction text with
  | nil => exact List.suffix_rfl
  | cons c text ih =>
    rw [lex_digits]
    split_ifs
    · exact ih.trans (List.suffix_cons c text)
    · exact ih.trans (List.suffix_cons c text)
    · exact List.suffix_rfl

theorem lex_fraction_suffix (rt : Runtime) (text : Bytes) : (lex_fraction rt text).2 <:+ text := by
  unfold lex_fraction
  split_ifs
  · exact (lex_digits_suffix rt _ _).trans (List.tail_suffix _)
  · exact List.suffix_rfl

theorem lex_exponent_suffix (rt : Runtime) (text : Bytes) : (lex_exponent rt text).2 <:+ text := by
  unfold lex_exponent
  split_ifs
  · exact (lex_digits_suffix rt _ _).trans (List.tail_suffix _)
  · exact ((lex_digits_suffix rt _ _).trans (List.tail_suffix _)).trans (List.tail_suffix _)
  · exact List.suffix_rfl
  · exact List.suffix_rfl

/-- A number starts with a digit, which is read. -/
theorem lex_digits_reads {base : Radix} {c : UInt8} (text : Bytes)
    (h : is_digit rt base c = true) : Consumes (c :: text) (lex_digits rt base (c :: text)).2 := by
  rw [lex_digits]
  split_ifs
  · exact Consumes.cons c (lex_digits_suffix rt _ _)
  · exact Consumes.cons c (lex_digits_suffix rt _ _)

theorem Consumes.trans_suffix {text rest rest' : Bytes} (h : Consumes text rest)
    (h' : rest' <:+ rest) : Consumes text rest' where
  suffix := h'.trans h.suffix
  shorter := h'.length_le.trans_lt h.shorter

theorem make_int_ne_eof {base : Radix} {digits : Bytes} {token : Token}
    (h : make_int rt base digits = .ok token) : token ≠ .TokEof := by
  unfold make_int at h
  dsimp only at h
  split_ifs at h
  rw [← Except.ok.inj h]
  rintro ⟨⟩

theorem make_float_ne_eof {buffer : Bytes} {has_exponent : Bool} {token : Token}
    (h : make_float rt buffer has_exponent = .ok token) : token ≠ .TokEof := by
  unfold make_float at h
  dsimp only at h
  split_ifs at h
  rw [← Except.ok.inj h]
  rintro ⟨⟩

/-- The value of a result that was computed from another one. -/
theorem map_eq_ok {ε α β : Type} {x : Except ε α} {f : α → β} {b : β} (h : x.map f = .ok b) :
    ∃ a, x = .ok a ∧ f a = b := by
  rcases x with e | a
  · cases h
  · exact ⟨a, rfl, Except.ok.inj h⟩

theorem lex_based_spec {base : Radix} {text rest : Bytes} {token : Token}
    (h : lex_based rt base text = .ok (token, rest)) : token ≠ .TokEof ∧ rest <:+ text := by
  unfold lex_based at h
  dsimp only at h
  split_ifs at h
  obtain ⟨token', hmake, heq⟩ := map_eq_ok h
  obtain ⟨rfl, rfl⟩ := Prod.mk.inj heq
  exact ⟨make_int_ne_eof hmake, lex_digits_suffix rt _ _⟩

theorem lex_decimal_spec {c : UInt8} {text rest : Bytes} {token : Token}
    (hdigit : is_ascii_dec_digit rt c = true)
    (h : lex_decimal rt (c :: text) = .ok (token, rest)) :
    token ≠ .TokEof ∧ Consumes (c :: text) rest := by
  have hinteger : Consumes (c :: text) (lex_digits rt .Dec (c :: text)).2 :=
    lex_digits_reads text hdigit
  have hread := hinteger.trans_suffix ((lex_exponent_suffix rt _).trans
    (lex_fraction_suffix rt (lex_digits rt .Dec (c :: text)).2))
  unfold lex_decimal at h
  dsimp only at h
  split_ifs at h
  · obtain ⟨token', hmake, heq⟩ := map_eq_ok h
    obtain ⟨rfl, rfl⟩ := Prod.mk.inj heq
    exact ⟨make_int_ne_eof hmake, hread⟩
  · obtain ⟨token', hmake, heq⟩ := map_eq_ok h
    obtain ⟨rfl, rfl⟩ := Prod.mk.inj heq
    exact ⟨make_float_ne_eof hmake, hread⟩

theorem lex_number_spec {c : UInt8} {text rest : Bytes} {token : Token}
    (hdigit : is_ascii_dec_digit rt c = true) (h : lex_number rt (c :: text) = .ok (token, rest)) :
    token ≠ .TokEof ∧ Consumes (c :: text) rest := by
  have htail : text.tail <:+ text := List.tail_suffix text
  unfold lex_number at h
  dsimp only [List.tail_cons] at h
  split_ifs at h
  · obtain ⟨htoken, hrest⟩ := lex_based_spec h
    exact ⟨htoken, Consumes.cons c (hrest.trans htail)⟩
  · obtain ⟨htoken, hrest⟩ := lex_based_spec h
    exact ⟨htoken, Consumes.cons c (hrest.trans htail)⟩
  · obtain ⟨rfl, rfl⟩ := Prod.mk.inj (Except.ok.inj h)
    exact ⟨by rintro ⟨⟩, Consumes.cons c List.suffix_rfl⟩
  · exact lex_decimal_spec hdigit h
  · exact lex_decimal_spec hdigit h

theorem lex_string_suffix {text content rest : Bytes}
    (h : lex_string rt text = .ok (content, rest)) : rest <:+ text := by
  fun_induction lex_string rt text generalizing content rest with
  | case1 => cases h
  | case2 => cases h
  | case3 cs =>
    obtain ⟨rfl, rfl⟩ := Prod.mk.inj (Except.ok.inj h)
    exact List.suffix_cons _ _
  | case4 => cases h
  | case5 => cases h
  | case6 e cs _ _ _ _ ih =>
    obtain ⟨p, hp, heq⟩ := map_eq_ok h
    obtain ⟨rfl, rfl⟩ := Prod.mk.inj heq
    exact ((ih hp).trans (List.suffix_cons e cs)).trans (List.suffix_cons _ _)
  | case7 => cases h
  | case8 c cs hnul hquote hescape ih =>
    obtain ⟨p, hp, heq⟩ := map_eq_ok h
    obtain ⟨rfl, rfl⟩ := Prod.mk.inj heq
    exact (ih hp).trans (List.suffix_cons c cs)

/-- A token that is not the end of the input reads a part of the text. -/
theorem next_token_spec {text rest : Bytes} {token : Token}
    (h : next_token rt text = .ok (token, rest)) :
    (current text = 0 ∧ token = .TokEof ∧ rest = text) ∨
      (token ≠ .TokEof ∧ Consumes text rest) := by
  cases text with
  | nil =>
    obtain ⟨rfl, rfl⟩ := Prod.mk.inj (Except.ok.inj h)
    exact .inl ⟨rfl, rfl, rfl⟩
  | cons c text =>
    have htail : text.tail <:+ text := List.tail_suffix text
    unfold next_token at h
    dsimp only [List.tail_cons] at h
    split at h
    · obtain ⟨rfl, rfl⟩ := Prod.mk.inj (Except.ok.inj h)
      exact .inl ⟨by assumption, rfl, rfl⟩
    apply Or.inr
    split at h
    · obtain ⟨rfl, rfl⟩ := Prod.mk.inj (Except.ok.inj h)
      exact ⟨by rintro ⟨⟩, Consumes.cons c List.suffix_rfl⟩
    split at h
    · split at h
      · split at h
        · obtain ⟨rfl, rfl⟩ := Prod.mk.inj (Except.ok.inj h)
          exact ⟨by rintro ⟨⟩, Consumes.cons c ((List.dropWhile_suffix _).trans htail)⟩
        · obtain ⟨rfl, rfl⟩ := Prod.mk.inj (Except.ok.inj h)
          exact ⟨by rintro ⟨⟩, Consumes.cons c htail⟩
      · split at h
        · obtain ⟨rfl, rfl⟩ := Prod.mk.inj (Except.ok.inj h)
          exact ⟨by rintro ⟨⟩, Consumes.cons c (List.dropWhile_suffix _)⟩
        · obtain ⟨rfl, rfl⟩ := Prod.mk.inj (Except.ok.inj h)
          exact ⟨by rintro ⟨⟩, Consumes.cons c List.suffix_rfl⟩
    split at h
    · obtain ⟨p, hp, heq⟩ := map_eq_ok h
      obtain ⟨rfl, rfl⟩ := Prod.mk.inj heq
      exact ⟨by rintro ⟨⟩, Consumes.cons c (lex_string_suffix hp)⟩
    split at h
    case isTrue hdigit => exact lex_number_spec hdigit h
    split at h
    case isTrue hident =>
      obtain ⟨htoken, rfl⟩ := Prod.mk.inj (Except.ok.inj h)
      refine ⟨?_, ?_⟩
      · rw [← htoken]
        split_ifs <;> rintro ⟨⟩
      · rw [List.dropWhile_cons_of_pos (by exact hident)]
        exact Consumes.cons c (List.dropWhile_suffix _)
    cases h

theorem eat_suffix (rt : Runtime) (comment : Bool) (text : Bytes) :
    eat_whitespace_and_comments rt comment text <:+ text := by
  fun_induction eat_whitespace_and_comments rt comment text with
  | case1 => exact List.suffix_rfl
  | case2 c cs _ ih => exact ih.trans (List.suffix_cons c cs)
  | case3 c cs _ _ ih => exact ih.trans (List.suffix_cons c cs)
  | case4 => exact List.suffix_rfl
  | case5 cs ih => exact ih.trans (List.suffix_cons _ cs)
  | case6 => exact List.suffix_rfl
  | case7 c cs _ _ ih => exact ih.trans (List.suffix_cons c cs)

theorem is_whitespace_newline : is_whitespace rt (rt.code '\n') = true := by
  simp [is_whitespace]

/-- A comment is left out up to the end of its line. -/
theorem eat_comment {text : Bytes} (hnul : 0 ∉ text) :
    eat_whitespace_and_comments rt true text =
      eat_whitespace_and_comments rt false (text.dropWhile (· ≠ rt.code '\n')) := by
  induction text with
  | nil => rfl
  | cons c text ih =>
    have hnul' : 0 ∉ text := fun h => hnul (List.mem_cons_of_mem c h)
    have hc : c ≠ 0 := fun h => hnul (h ▸ List.mem_cons_self)
    rw [eat_whitespace_and_comments]
    by_cases hnewline : c = rt.code '\n'
    · rw [if_pos hnewline, List.dropWhile_cons_of_neg (by simpa using hnewline),
        eat_whitespace_and_comments, if_pos (hnewline ▸ is_whitespace_newline)]
    · rw [if_neg hnewline, if_neg hc, List.dropWhile_cons_of_pos (by simpa using hnewline),
        ih hnul']

/-- Whitespace and whole comments. -/
def Skipped (rt : Runtime) (input : Bytes) (lo hi : ℕ) : Prop :=
  ∀ pos c, lo ≤ pos → pos < hi → input[pos]? = some c → is_whitespace rt c = true ∨
    ∃ comment, Comment rt input comment ∧ comment.contains pos ∧ lo ≤ comment.start ∧
      comment.stop ≤ hi

theorem Skipped.empty (input : Bytes) (lo : ℕ) : Skipped rt input lo lo :=
  fun pos c hlo hhi _ => absurd hhi (by omega)

/-- What is skipped first, and what is skipped then. -/
theorem Skipped.append {input : Bytes} {lo mid hi : ℕ} (h : Skipped rt input lo mid)
    (h' : Skipped rt input mid hi) (hlo : lo ≤ mid) (hhi : mid ≤ hi) : Skipped rt input lo hi := by
  intro pos c hpos hpos' hc
  by_cases hmid : pos < mid
  · rcases h pos c hpos hmid hc with hwhite | ⟨comment, hcomment, hin, hstart, hstop⟩
    · exact .inl hwhite
    · exact .inr ⟨comment, hcomment, hin, hstart, hstop.trans hhi⟩
  · rcases h' pos c (by omega) hpos' hc with hwhite | ⟨comment, hcomment, hin, hstart, hstop⟩
    · exact .inl hwhite
    · exact .inr ⟨comment, hcomment, hin, hlo.trans hstart, hstop⟩

theorem getElem?_length {pre text : Bytes} (c : UInt8) :
    (pre ++ c :: text)[pre.length]? = some c := by
  simp

theorem skipped_whitespace {pre text : Bytes} {c : UInt8} (h : is_whitespace rt c = true) :
    Skipped rt (pre ++ c :: text) pre.length (pre.length + 1) := by
  intro pos c' hlo hhi hc
  obtain rfl : pos = pre.length := by omega
  rw [getElem?_length] at hc
  exact .inl (Option.some.inj hc ▸ h)

theorem code_ne_nul {a : Char} (ha : a ∈ printable) : rt.code a ≠ 0 := by
  intro h
  have hprintable := rt.iscntrl_printable a ha
  rw [h, rt.iscntrl_nul] at hprintable
  cases hprintable

theorem code_hash_ne_newline : rt.code '#' ≠ rt.code '\n' := by
  rw [Ne, rt.code_eq_iff (by decide) (by decide)]
  decide

/-- A line and what follows it. -/
theorem line_split (rt : Runtime) (text : Bytes) :
    ∃ line rest, text = line ++ rest ∧ (∀ c ∈ line, c ≠ rt.code '\n') ∧
      (∀ c ∈ rest.head?, c = rt.code '\n') ∧ text.dropWhile (· ≠ rt.code '\n') = rest := by
  refine ⟨text.takeWhile (· ≠ rt.code '\n'), _, List.takeWhile_append_dropWhile.symm, ?_, ?_, rfl⟩
  · exact fun c hc => by simpa using List.mem_takeWhile_imp hc
  · intro c hc
    have hhead := List.head?_dropWhile_not (· ≠ rt.code '\n') text
    rw [Option.mem_def.mp hc] at hhead
    simpa using hhead

/-- A comment up to the end of its line. -/
theorem comment_line {pre line rest : Bytes} (hblank : current (line ++ rest) = rt.code ' ')
    (hline : ∀ c ∈ line, c ≠ rt.code '\n') (hrest : ∀ c ∈ rest.head?, c = rt.code '\n') :
    Comment rt (pre ++ rt.code '#' :: (line ++ rest))
      ⟨pre.length, pre.length + 1 + line.length⟩ := by
  have hinput : pre ++ rt.code '#' :: (line ++ rest) = (pre ++ rt.code '#' :: line) ++ rest := by
    simp
  have hlength : (pre ++ rt.code '#' :: line).length = pre.length + 1 + line.length := by
    simp
    omega
  constructor
  · exact getElem?_length _
  · generalize line ++ rest = text at hblank
    rcases text with _ | ⟨c, text⟩
    · exact absurd hblank.symm (code_ne_nul (by decide))
    · have hc : c = rt.code ' ' := hblank
      simp [hc]
  · rintro pos ⟨hlo, hhi⟩ hpos
    dsimp only at hlo hhi
    rw [hinput, List.getElem?_append_left (by omega), List.getElem?_append_right hlo] at hpos
    rcases List.mem_cons.mp (List.mem_of_getElem? hpos) with hhash | hmem
    · exact code_hash_ne_newline hhash.symm
    · exact hline _ hmem rfl
  · rcases rest with _ | ⟨c, rest⟩
    · exact .inl (by rw [hinput, List.append_nil, hlength])
    · refine .inr ?_
      rw [hinput, ← hlength, getElem?_length, hrest c rfl]

theorem skipped_comment {pre line rest : Bytes} (hblank : current (line ++ rest) = rt.code ' ')
    (hline : ∀ c ∈ line, c ≠ rt.code '\n') (hrest : ∀ c ∈ rest.head?, c = rt.code '\n') :
    Skipped rt (pre ++ rt.code '#' :: (line ++ rest)) pre.length
      (pre.length + 1 + line.length) := by
  intro pos c hlo hhi _
  exact .inr ⟨_, comment_line hblank hline hrest, ⟨hlo, hhi⟩, le_rfl, le_rfl⟩

/-- What is left out before a token, which does not start with whitespace. -/
theorem eat_skips (rt : Runtime) (pre text : Bytes) (hnul : 0 ∉ text) :
    ∃ gap, text = gap ++ eat_whitespace_and_comments rt false text ∧
      Skipped rt (pre ++ text) pre.length (pre ++ gap).length ∧
      ∀ c ∈ (eat_whitespace_and_comments rt false text).head?, is_whitespace rt c = false := by
  induction hlength : text.length using Nat.strong_induction_on generalizing pre text with
  | _ n ih =>
    subst hlength
    rcases text with _ | ⟨c, text⟩
    · refine ⟨[], rfl, ?_, by simp [eat_whitespace_and_comments]⟩
      simpa using Skipped.empty _ _
    · have hnul' : 0 ∉ text := fun h => hnul (List.mem_cons_of_mem c h)
      rw [eat_whitespace_and_comments]
      by_cases hwhite : is_whitespace rt c = true
      · rw [if_pos hwhite]
        obtain ⟨gap, hgap, hskipped, hhead⟩ := ih text.length (by simp) (pre ++ [c]) text hnul' rfl
        refine ⟨c :: gap, congrArg (c :: ·) hgap, ?_, hhead⟩
        have hrest : Skipped rt (pre ++ c :: text) (pre.length + 1) (pre ++ c :: gap).length := by
          simpa using hskipped
        exact (skipped_whitespace hwhite).append hrest (by omega) (by simp)
      · rw [if_neg hwhite]
        by_cases hcomment : (c = rt.code '#' && current text = rt.code ' ') = true
        · rw [if_pos hcomment, eat_comment hnul']
          obtain ⟨rfl, hblank⟩ : c = rt.code '#' ∧ current text = rt.code ' ' := by
            simpa using hcomment
          obtain ⟨line, rest, htext, hline, hrest, hdrop⟩ := line_split rt text
          rw [hdrop]
          subst htext
          obtain ⟨gap, hgap, hskipped, hhead⟩ := ih rest.length (by simp)
            (pre ++ rt.code '#' :: line) rest (fun h => hnul' (List.mem_append_right _ h)) rfl
          refine ⟨rt.code '#' :: (line ++ gap), ?_, ?_, hhead⟩
          · rw [List.cons_append, List.append_assoc, ← hgap]
          · have hafter : Skipped rt (pre ++ rt.code '#' :: (line ++ rest))
                (pre.length + 1 + line.length)
                (pre ++ rt.code '#' :: (line ++ gap)).length := by
              simpa [Nat.add_assoc, Nat.add_comm, Nat.add_left_comm] using hskipped
            exact (skipped_comment hblank hline hrest).append hafter (by omega) (by simp; omega)
        · rw [if_neg hcomment]
          refine ⟨[], rfl, ?_, by simpa using hwhite⟩
          simpa using Skipped.empty _ _

/-- The entries of a text that is read from a position on. -/
inductive Laid (rt : Runtime) (input : Bytes) : ℕ → List (Token × Span) → Prop
  | eof {lo : ℕ} : Skipped rt input lo input.length →
      Laid rt input lo [(.TokEof, ⟨input.length, input.length⟩)]
  | token {lo : ℕ} {token : Token} {span : Span} {tokens : List (Token × Span)} :
      token ≠ .TokEof → lo ≤ span.start → Skipped rt input lo span.start →
      (∀ c, input[span.start]? = some c → is_whitespace rt c = false) →
      span.start < span.stop → span.stop ≤ input.length →
      Laid rt input span.stop tokens → Laid rt input lo ((token, span) :: tokens)

theorem position_append (pre rest : Bytes) : position (pre ++ rest) rest = pre.length := by
  simp [position]

/-- The loop lays its tokens out one after the other. -/
theorem lex_loop_laid {n : ℕ} {pre text : Bytes} {tokens : List (Token × Span)} (hnul : 0 ∉ text)
    (h : lex_loop rt (pre ++ text) n text = some (.ok tokens)) :
    Laid rt (pre ++ text) pre.length tokens := by
  induction n generalizing pre text tokens with
  | zero => cases h
  | succ n ih =>
    obtain ⟨gap, hgap, hskipped, hhead⟩ := eat_skips rt pre text hnul
    rw [lex_loop] at h
    dsimp only at h
    generalize eat_whitespace_and_comments rt false text = text' at hgap hhead h
    subst hgap
    rcases hnext : next_token rt text' with kind | ⟨token, rest⟩
    · rw [hnext] at h
      cases h
    rw [hnext] at h
    dsimp only at h
    rcases next_token_spec hnext with ⟨hcurrent, rfl, rfl⟩ | ⟨htoken, ⟨read, rfl⟩, hshorter⟩
    · rw [if_pos rfl] at h
      obtain rfl : rest = [] := by
        rcases rest with _ | ⟨c, rest⟩
        · rfl
        · obtain rfl : c = 0 := hcurrent
          simp at hnul
      obtain rfl := Except.ok.inj (Option.some.inj h)
      rw [List.append_nil] at hskipped ⊢
      simpa [position] using Laid.eof hskipped
    · rw [if_neg htoken] at h
      obtain ⟨result, hresult, hmap⟩ := Option.map_eq_some_iff.mp h
      obtain ⟨tokens', rfl, rfl⟩ := map_eq_ok hmap
      have hinput : pre ++ (gap ++ (read ++ rest)) = (pre ++ gap ++ read) ++ rest := by simp
      have hstart : position (pre ++ (gap ++ (read ++ rest))) (read ++ rest) =
          (pre ++ gap).length := by
        rw [← List.append_assoc, position_append]
      have hstop : position (pre ++ (gap ++ (read ++ rest))) rest =
          (pre ++ gap ++ read).length := by
        rw [hinput, position_append]
      have hread : 0 < read.length := by simpa using hshorter
      rw [hstart, hstop]
      refine .token htoken (by simp) hskipped ?_ ?_ ?_ ?_
      · intro c hc
        apply hhead c
        rcases read with _ | ⟨c', read⟩
        · exact absurd hread (lt_irrefl 0)
        · have hat : (pre ++ (gap ++ (c' :: read ++ rest)))[(pre ++ gap).length]? = some c' := by
            rw [← List.append_assoc, List.cons_append, getElem?_length]
          exact Option.mem_def.mpr (hat.symm.trans hc)
      · simpa using hread
      · simp
      · rw [hinput] at hresult ⊢
        exact ih (fun hmem => hnul (by simp [hmem])) hresult

section

variable {input : Bytes} {lo : ℕ} {tokens : List (Token × Span)}

theorem Laid.le_start (h : Laid rt input lo tokens) (hlo : lo ≤ input.length) :
    ∀ entry ∈ tokens, lo ≤ entry.2.start := by
  induction h with
  | eof => simpa using hlo
  | token _ hstart _ _ hlt hstop _ ih =>
    intro entry hmem
    rcases List.mem_cons.mp hmem with rfl | hmem
    · exact hstart
    · exact (hstart.trans hlt.le).trans (ih hstop entry hmem)

theorem Laid.disjoint (h : Laid rt input lo tokens) :
    tokens.Pairwise fun a b => a.2.stop ≤ b.2.start := by
  induction h with
  | eof => exact List.pairwise_singleton _ _
  | token _ _ _ _ _ hstop hrest ih => exact List.pairwise_cons.mpr ⟨hrest.le_start hstop, ih⟩

theorem Laid.increasing (h : Laid rt input lo tokens) :
    tokens.Pairwise fun a b => a.2.start < b.2.start := by
  induction h with
  | eof => exact List.pairwise_singleton _ _
  | token _ _ _ _ hlt hstop hrest ih =>
    exact List.pairwise_cons.mpr
      ⟨fun entry hmem => hlt.trans_le (hrest.le_start hstop entry hmem), ih⟩

theorem Laid.starts (h : Laid rt input lo tokens) : ∀ entry ∈ tokens, ∀ c,
    input[entry.2.start]? = some c → is_whitespace rt c = false := by
  induction h with
  | eof =>
    intro entry hmem c hc
    rw [List.mem_singleton.mp hmem] at hc
    simp at hc
  | token _ _ _ hwhite _ _ _ ih =>
    intro entry hmem c hc
    rcases List.mem_cons.mp hmem with rfl | hmem
    · exact hwhite c hc
    · exact ih entry hmem c hc

theorem Laid.ends (h : Laid rt input lo tokens) :
    ∃ before, tokens = before ++ [(.TokEof, ⟨input.length, input.length⟩)] ∧
      ∀ entry ∈ before, entry.1 ≠ .TokEof ∧ entry.2.start < entry.2.stop ∧
        entry.2.stop ≤ input.length := by
  induction h with
  | eof => exact ⟨[], rfl, by simp⟩
  | @token _ token span _ htoken _ _ _ hlt hstop _ ih =>
    obtain ⟨before, rfl, hbefore⟩ := ih
    exact ⟨(token, span) :: before, rfl, List.forall_mem_cons.mpr ⟨⟨htoken, hlt, hstop⟩, hbefore⟩⟩

/-- A character from the position on is in one of the spans, or was skipped. -/
theorem Laid.covered (h : Laid rt input lo tokens) (hlo : lo ≤ input.length) {pos : ℕ} {c : UInt8}
    (hpos : lo ≤ pos) (hc : input[pos]? = some c) :
    (∃! entry, entry ∈ tokens ∧ entry.2.contains pos) ∨
      (∀ entry ∈ tokens, ¬ entry.2.contains pos) ∧
        (is_whitespace rt c = true ∨ ∃ comment, Comment rt input comment ∧ comment.contains pos ∧
          lo ≤ comment.start ∧
          ∀ entry ∈ tokens, entry.2.stop ≤ comment.start ∨ comment.stop ≤ entry.2.start) := by
  have hlength : pos < input.length := (List.getElem?_eq_some_iff.mp hc).1
  induction h with
  | @eof lo hskipped =>
    refine .inr ⟨?_, ?_⟩
    · rintro entry hmem ⟨hstart, -⟩
      rw [List.mem_singleton.mp hmem] at hstart
      exact absurd hstart (by simpa using hlength)
    · rcases hskipped pos c hpos hlength hc with hwhite | ⟨comment, hcomment, hin, hstart, hstop⟩
      · exact .inl hwhite
      · refine .inr ⟨comment, hcomment, hin, hstart, fun entry hmem => .inr ?_⟩
        rw [List.mem_singleton.mp hmem]
        exact hstop
  | @token lo token span tokens _ hstart hskipped _ hlt hstop hrest ih =>
    have hafter := hrest.le_start hstop
    by_cases hbefore : pos < span.start
    · -- in the gap before the token
      refine .inr ⟨?_, ?_⟩
      · rintro entry hmem ⟨hin, -⟩
        rcases List.mem_cons.mp hmem with rfl | hmem
        · exact absurd hin (by simpa using hbefore)
        · exact absurd (hafter entry hmem) (by omega)
      · rcases hskipped pos c hpos hbefore hc with hwhite | ⟨comment, hcomment, hin, hlo', hhi⟩
        · exact .inl hwhite
        · refine .inr ⟨comment, hcomment, hin, hlo', fun entry hmem => .inr ?_⟩
          rcases List.mem_cons.mp hmem with rfl | hmem
          · exact hhi
          · exact (hhi.trans hlt.le).trans (hafter entry hmem)
    by_cases hin : pos < span.stop
    · -- in the token
      refine .inl ⟨(token, span), ⟨List.mem_cons_self, Nat.le_of_not_lt hbefore, hin⟩, ?_⟩
      rintro entry ⟨hmem, hentry, -⟩
      rcases List.mem_cons.mp hmem with rfl | hmem
      · rfl
      · exact absurd (hafter entry hmem) (by omega)
    -- behind the token
    have hout : ¬ span.contains pos := fun h => hin h.2
    rcases ih hstop (by omega) with ⟨entry, ⟨hmem, hentry⟩, hunique⟩ | ⟨hnone, hskip⟩
    · refine .inl ⟨entry, ⟨List.mem_cons_of_mem _ hmem, hentry⟩, ?_⟩
      rintro entry' ⟨hmem', hentry'⟩
      rcases List.mem_cons.mp hmem' with rfl | hmem'
      · exact absurd hentry' hout
      · exact hunique entry' ⟨hmem', hentry'⟩
    · refine .inr ⟨List.forall_mem_cons.mpr ⟨hout, hnone⟩, ?_⟩
      rcases hskip with hwhite | ⟨comment, hcomment, hcontains, hfrom, hapart⟩
      · exact .inl hwhite
      · exact .inr ⟨comment, hcomment, hcontains, by omega,
          List.forall_mem_cons.mpr ⟨.inl hfrom, hapart⟩⟩

theorem Laid.tiled (h : Laid rt input 0 tokens) : Tiled rt input tokens where
  increasing := h.increasing
  disjoint := h.disjoint
  covered pos c hc := by
    rcases h.covered (Nat.zero_le _) (Nat.zero_le pos) hc with hone | ⟨hnone, hskip⟩
    · exact .inl hone
    · refine .inr ⟨hnone, ?_⟩
      rcases hskip with hwhite | ⟨comment, hcomment, hin, -, hapart⟩
      · exact .inl hwhite
      · exact .inr ⟨comment, hcomment, hin, hapart⟩
  starts := h.starts
  eof := h.ends

end

/-- Each iteration that is not the last one reads a character. -/
theorem lex_loop_ends (rt : Runtime) (input : Bytes) {n : ℕ} {text : Bytes} (h : text.length < n) :
    ∃ result, lex_loop rt input n text = some result := by
  induction n generalizing text with
  | zero => exact absurd h (Nat.not_lt_zero _)
  | succ n ih =>
    have hskip := (eat_suffix rt false text).length_le
    rw [lex_loop]
    dsimp only
    rcases hnext : next_token rt (eat_whitespace_and_comments rt false text) with
      kind | ⟨token, rest⟩
    · exact ⟨_, rfl⟩
    · dsimp only
      rcases next_token_spec hnext with ⟨-, rfl, -⟩ | ⟨htoken, hread⟩
      · exact ⟨_, if_pos rfl⟩
      · have hshorter := hread.shorter
        obtain ⟨result, hresult⟩ := ih (show rest.length < n by omega)
        rw [if_neg htoken, hresult]
        exact ⟨_, rfl⟩

/-- More iterations change nothing. -/
theorem lex_loop_succ {input text : Bytes} {n : ℕ}
    {result : Except LexErrorKind (List (Token × Span))}
    (h : lex_loop rt input n text = some result) :
    lex_loop rt input (n + 1) text = some result := by
  induction n generalizing text result with
  | zero => cases h
  | succ n ih =>
    rw [lex_loop] at h ⊢
    dsimp only at h ⊢
    rcases hnext : next_token rt (eat_whitespace_and_comments rt false text) with
      kind | ⟨token, rest⟩
    · rw [hnext] at h
      exact h
    · rw [hnext] at h
      dsimp only at h ⊢
      by_cases htoken : token = .TokEof
      · rw [if_pos htoken] at h ⊢
        exact h
      · rw [if_neg htoken] at h ⊢
        obtain ⟨result', hresult, rfl⟩ := Option.map_eq_some_iff.mp h
        rw [ih hresult]
        rfl

theorem lex_loop_mono {input text : Bytes} {n m : ℕ} (hle : n ≤ m)
    {result : Except LexErrorKind (List (Token × Span))}
    (h : lex_loop rt input n text = some result) : lex_loop rt input m text = some result := by
  induction hle with
  | refl => exact h
  | step _ ih => exact lex_loop_succ ih

/-- Without the spans, the loop gives the tokens that the parser reads. -/
theorem lex_all_of_loop {input text : Bytes} {n : ℕ}
    {result : Except LexErrorKind (List (Token × Span))}
    (h : lex_loop rt input n text = some result) :
    lex_all rt n text = result.map (List.map Prod.fst) := by
  induction n generalizing text result with
  | zero => cases h
  | succ n ih =>
    rw [lex_loop] at h
    rw [lex_all]
    dsimp only at h
    rcases hnext : next_token rt (eat_whitespace_and_comments rt false text) with
      kind | ⟨token, rest⟩
    · rw [hnext] at h
      obtain rfl := Option.some.inj h
      rfl
    · rw [hnext] at h
      dsimp only at h
      by_cases htoken : token = .TokEof
      · rw [if_pos htoken] at h
        obtain rfl := Option.some.inj h
        simp [bind, Except.bind, htoken, Except.map]
      · rw [if_neg htoken] at h
        obtain ⟨result', hresult, rfl⟩ := Option.map_eq_some_iff.mp h
        simp only [bind, Except.bind, if_neg htoken, ih hresult]
        rcases result' with kind | tokens
        · rfl
        · rfl

theorem tokenize_of_lexes {input : Bytes} {result : Except LexErrorKind (List (Token × Span))}
    (h : Lexes rt input result) : tokenize rt input = result.map (List.map Prod.fst) := by
  obtain ⟨n, hn⟩ := h
  obtain ⟨result', hresult⟩ := lex_loop_ends rt input (Nat.lt_succ_self input.length)
  obtain rfl : result' = result := by
    have hmax := lex_loop_mono (le_max_left n (input.length + 1)) hn
    have hmax' := lex_loop_mono (le_max_right n (input.length + 1)) hresult
    exact Option.some.inj (hmax'.symm.trans hmax)
  exact lex_all_of_loop hresult

/-- The loop of the lexer ends on every input, and where it gives tokens they tile the input. -/
theorem tokens_tile {input : Bytes} (hnul : 0 ∉ input) :
    (∃ result, Lexes rt input result) ∧
      ∀ tokens, Lexes rt input (.ok tokens) → Tiled rt input tokens := by
  constructor
  · obtain ⟨result, hresult⟩ := lex_loop_ends rt input (Nat.lt_succ_self input.length)
    exact ⟨result, _, hresult⟩
  · rintro tokens ⟨n, hn⟩
    have hlaid : Laid rt ([] ++ input) ([] : Bytes).length tokens := lex_loop_laid hnul hn
    exact hlaid.tiled

/-- A command line with a comment. -/
theorem tokens_tile_comment :
    (∃ result, Lexes ascii_runtime (ascii.str "ls -a # all\n\"x y\"") result) ∧
      ∀ tokens, Lexes ascii_runtime (ascii.str "ls -a # all\n\"x y\"") (.ok tokens) →
        Tiled ascii_runtime (ascii.str "ls -a # all\n\"x y\"") tokens :=
  tokens_tile (by decide +kernel)

end Zowex.lexer
