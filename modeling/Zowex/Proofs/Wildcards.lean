import Zowex.Spec.Wildcards

/-! The loop of `is_match` remembers only the last star it has come to. That is enough, and each time
it goes back to it there is less of the string left. -/

namespace Zowex.zds

open Globs

variable {cs : Charset}

theorem symbol_star : symbol cs (cs.code '*') = .star := if_pos rfl

theorem symbol_any : symbol cs (cs.code '?') = .any := by
  rw [symbol, if_neg (cs.code_ne (by decide) (by decide) (by decide)), if_pos rfl]

theorem symbol_char {c : UInt8} (hstar : c ≠ cs.code '*') (hany : c ≠ cs.code '?') :
    symbol cs c = .char c := by
  rw [symbol, if_neg hstar, if_neg hany]

theorem trailing_stars {p : Bytes} : (p.dropWhile fun c => c = cs.code '*') = [] ↔
    ∀ d ∈ p.map (symbol cs), d = .star := by
  rw [List.dropWhile_eq_nil_iff, List.forall_mem_map]
  apply forall₂_congr
  intro c _
  rw [decide_eq_true_eq]
  constructor
  · rintro rfl
    exact symbol_star
  · intro hsymbol
    by_contra hstar
    rw [symbol, if_neg hstar] at hsymbol
    split_ifs at hsymbol

/-- What the loop has still to decide. -/
def Pending (cs : Charset) (star : Option (Bytes × Bytes)) (s p : Bytes) : Prop :=
  match star with
  | none => Matches s (p.map (symbol cs))
  | some (star_p, star_s) => Matches star_s (.star :: star_p.map (symbol cs))

/-- The part of the pattern behind the last star has been found so far, right where it was looked
for. -/
inductive Standing (cs : Charset) : Option (Bytes × Bytes) → Bytes → Bytes → Prop
  | no_star (s p : Bytes) : Standing cs none s p
  | behind {found part : Bytes} (s p : Bytes) : Segment found (part.map (symbol cs)) →
      Standing cs (some (part ++ p, found ++ s)) s p

theorem Standing.advance {star : Option (Bytes × Bytes)} {c d : UInt8} {s p : Bytes}
    (h : Standing cs star (c :: s) (d :: p)) (hc : c ≠ cs.code '*')
    (hd : d = cs.code '?' ∨ d = c) :
    Standing cs star s p ∧ (Pending cs star (c :: s) (d :: p) ↔ Pending cs star s p) := by
  have hstep {found part : Bytes} (hfound : Segment found (part.map (symbol cs))) :
      Segment (found ++ [c]) ((part ++ [d]).map (symbol cs)) := by
    rw [List.map_append, List.map_singleton]
    by_cases hany : d = cs.code '?'
    · rw [hany, symbol_any]
      exact hfound.snoc_any c
    · obtain rfl : d = c := hd.resolve_left hany
      rw [symbol_char hc hany]
      exact hfound.snoc_char d
  cases h with
  | no_star =>
    refine ⟨.no_star s p, ?_⟩
    have hone : Segment ([] ++ [c]) (([] ++ [d]).map (symbol cs)) := hstep .nil
    have hrest := hone.matches_append (s := s) (q := p.map (symbol cs))
    simpa [Pending] using hrest
  | @behind found part _ _ hfound =>
    refine ⟨?_, Iff.rfl⟩
    have hnext := Standing.behind s p (hstep hfound)
    rwa [List.append_assoc, List.append_assoc, List.singleton_append, List.singleton_append] at hnext

/-- Nothing has been looked for yet behind a star. -/
theorem Standing.at_star (cs : Charset) (s p : Bytes) : Standing cs (some (p, s)) s p := by
  have hempty : Segment ([] : Bytes) (([] : Bytes).map (symbol cs)) := .nil
  exact .behind s p hempty

theorem Standing.new_star {star : Option (Bytes × Bytes)} {s p : Bytes}
    (h : Standing cs star s (cs.code '*' :: p)) :
    Standing cs (some (p, s)) s p ∧
      (Pending cs star s (cs.code '*' :: p) ↔ Pending cs (some (p, s)) s p) := by
  refine ⟨.at_star cs s p, ?_⟩
  cases h with
  | no_star =>
    rw [Pending, List.map_cons, symbol_star]
    rfl
  | behind _ _ hfound =>
    rw [Pending, List.map_append, List.map_cons, symbol_star]
    exact hfound.first_place

/-- Nothing is found where the pattern and the string differ. -/
theorem not_matches_here {c : UInt8} {s p : Bytes} (hany : p.head? ≠ some (cs.code '?'))
    (hsame : p.head? ≠ some c) (hstar : p.head? ≠ some (cs.code '*')) :
    ¬ Matches (c :: s) (p.map (symbol cs)) := by
  cases p with
  | nil => exact not_matches_nil
  | cons d p =>
    simp only [List.head?_cons, ne_eq, Option.some.injEq] at hany hsame hstar
    rw [List.map_cons, symbol_char hstar hany, matches_char]
    exact fun h => hsame h.1.symm

theorem Standing.go_back {star_p star_s : Bytes} {c : UInt8} {s p : Bytes}
    (h : Standing cs (some (star_p, star_s)) (c :: s) p)
    (hnot : ¬ Matches (c :: s) (p.map (symbol cs))) :
    star_s ≠ [] ∧ Standing cs (some (star_p, star_s.tail)) star_s.tail star_p ∧
      (Pending cs (some (star_p, star_s)) (c :: s) p ↔
        Pending cs (some (star_p, star_s.tail)) star_s.tail star_p) := by
  refine ⟨?_, .at_star cs _ _, ?_⟩
  · cases h with
    | behind _ _ hfound => simp
  · cases h with
    | @behind found part _ _ hfound =>
      have hpart : ¬ Matches (found ++ c :: s) ((part ++ p).map (symbol cs)) := by
        rw [List.map_append, hfound.matches_append]
        exact hnot
      rw [Pending, Pending]
      cases found with
      | nil => exact matches_star_cons hpart
      | cons a found => exact matches_star_cons hpart

theorem Standing.finish {star : Option (Bytes × Bytes)} {p : Bytes} (h : Standing cs star [] p) :
    (p.dropWhile fun c => c = cs.code '*') = [] ↔ Pending cs star [] p := by
  rw [trailing_stars, ← matches_nil]
  cases h with
  | no_star => rfl
  | behind _ _ hfound =>
    rw [Pending, List.append_nil, List.map_append]
    exact hfound.last_place.symm

/-! Each step goes to a later star of the pattern, or back to the last one with less of the string, or
on in the string. -/

def left_behind (star : Option (Bytes × Bytes)) (p : Bytes) : ℕ :=
  star.elim (p.length + 1) fun behind => behind.1.length

def left_over (star : Option (Bytes × Bytes)) : ℕ := star.elim 0 fun behind => behind.2.length

def steps_left (star : Option (Bytes × Bytes)) (s p : Bytes) : ℕ ×ₗ ℕ ×ₗ ℕ :=
  toLex (left_behind star p, toLex (left_over star, s.length))

theorem steps_left_advance (star : Option (Bytes × Bytes)) (c d : UInt8) (s p : Bytes) :
    steps_left star s p < steps_left star (c :: s) (d :: p) := by
  rw [steps_left, steps_left, Prod.Lex.toLex_lt_toLex, Prod.Lex.toLex_lt_toLex]
  cases star with
  | none => exact .inl (Nat.lt_succ_self _)
  | some behind => exact .inr ⟨rfl, .inr ⟨rfl, Nat.lt_succ_self _⟩⟩

theorem Standing.steps_left_new_star {star : Option (Bytes × Bytes)} {d : UInt8} {s p : Bytes}
    (h : Standing cs star s (d :: p)) :
    steps_left (some (p, s)) s p < steps_left star s (d :: p) := by
  rw [steps_left, steps_left, Prod.Lex.toLex_lt_toLex]
  left
  cases h with
  | no_star => simp [left_behind]
  | behind _ _ _ =>
    simp only [left_behind, Option.elim_some, List.length_append, List.length_cons]
    omega

theorem steps_left_go_back {star_p star_s : Bytes} (hne : star_s ≠ []) (s p : Bytes) :
    steps_left (some (star_p, star_s.tail)) star_s.tail star_p <
      steps_left (some (star_p, star_s)) s p := by
  have hshorter : star_s.tail.length < star_s.length := by
    rw [List.length_tail]
    exact Nat.sub_one_lt_of_lt (List.length_pos_iff.mpr hne)
  rw [steps_left, steps_left, Prod.Lex.toLex_lt_toLex, Prod.Lex.toLex_lt_toLex]
  exact .inr ⟨rfl, .inl hshorter⟩

/-- The loop comes to an end, with what there was to decide. -/
def Decided (cs : Charset) (star : Option (Bytes × Bytes)) (s p : Bytes) : Prop :=
  ∃ result steps, (result = true ↔ Pending cs star s p) ∧
    ∀ fuel ≥ steps, is_match_from cs fuel star s p = some result

theorem Decided.now {star : Option (Bytes × Bytes)} {s p : Bytes} (result : Bool)
    (hresult : result = true ↔ Pending cs star s p)
    (hrun : ∀ fuel, is_match_from cs (fuel + 1) star s p = some result) :
    Decided cs star s p := by
  refine ⟨result, 1, hresult, fun fuel hfuel => ?_⟩
  obtain ⟨fuel, rfl⟩ := Nat.exists_eq_add_of_le' hfuel
  exact hrun fuel

theorem Decided.step {star star' : Option (Bytes × Bytes)} {s s' p p' : Bytes}
    (h : Decided cs star' s' p') (hpending : Pending cs star s p ↔ Pending cs star' s' p')
    (hrun : ∀ fuel, is_match_from cs (fuel + 1) star s p = is_match_from cs fuel star' s' p') :
    Decided cs star s p := by
  obtain ⟨result, steps, hresult, hsteps⟩ := h
  refine ⟨result, steps + 1, hresult.trans hpending.symm, fun fuel hfuel => ?_⟩
  obtain ⟨fuel, rfl⟩ := Nat.exists_eq_add_of_le' (Nat.le_of_add_left_le hfuel)
  rw [hrun]
  exact hsteps fuel (by omega)

theorem is_match_from_cons (cs : Charset) (fuel : ℕ) (star : Option (Bytes × Bytes)) (c : UInt8)
    (s p : Bytes) : is_match_from cs (fuel + 1) star (c :: s) p =
      if p.head? = some (cs.code '?') ∨ p.head? = some c then is_match_from cs fuel star s p.tail
      else if p.head? = some (cs.code '*') then
        is_match_from cs fuel (some (p.tail, c :: s)) (c :: s) p.tail
      else star.elim (some false) fun behind =>
        is_match_from cs fuel (some (behind.1, behind.2.tail)) behind.2.tail behind.1 := by
  cases star with
  | none => rfl
  | some behind => rfl

theorem is_match_decided {star : Option (Bytes × Bytes)} {s p : Bytes}
    (h : Standing cs star s p) (hs : cs.code '*' ∉ s)
    (hstar : ∀ behind ∈ star, cs.code '*' ∉ behind.2) : Decided cs star s p := by
  generalize hleft : steps_left star s p = left
  induction left using WellFoundedLT.induction generalizing star s p with
  | ind left ih =>
    subst hleft
    cases s with
    | nil => exact .now _ (decide_eq_true_iff.trans h.finish) fun fuel => rfl
    | cons c s =>
      have hc : c ≠ cs.code '*' := fun hc => hs (hc ▸ List.mem_cons_self)
      have hrest : cs.code '*' ∉ s := fun hmem => hs (List.mem_cons_of_mem c hmem)
      by_cases hadvance : p.head? = some (cs.code '?') ∨ p.head? = some c
      · obtain ⟨d, p, rfl⟩ : ∃ d q, p = d :: q := by
          cases p with
          | nil => simp at hadvance
          | cons d p => exact ⟨d, p, rfl⟩
        have hd : d = cs.code '?' ∨ d = c := by simpa using hadvance
        obtain ⟨hnext, hpending⟩ := h.advance hc hd
        have hdecided := ih _ (steps_left_advance star c d s p) hnext hrest hstar rfl
        refine hdecided.step hpending fun fuel => ?_
        rw [is_match_from_cons, if_pos hadvance]
        rfl
      by_cases hp : p.head? = some (cs.code '*')
      · obtain ⟨p, rfl⟩ : ∃ q, p = cs.code '*' :: q := List.head?_eq_some_iff.mp hp
        obtain ⟨hnext, hpending⟩ := h.new_star
        have hdecided := ih _ h.steps_left_new_star hnext hs (by
          rintro _ ⟨⟩
          exact hs) rfl
        refine hdecided.step hpending fun fuel => ?_
        rw [is_match_from_cons, if_neg hadvance, if_pos hp]
        rfl
      obtain ⟨hany, hsame⟩ := not_or.mp hadvance
      have hnot : ¬ Matches (c :: s) (p.map (symbol cs)) := not_matches_here hany hsame hp
      cases star with
      | none =>
        refine .now false (iff_of_false Bool.false_ne_true hnot) fun fuel => ?_
        rw [is_match_from_cons, if_neg hadvance, if_neg hp]
        rfl
      | some behind =>
        obtain ⟨star_p, star_s⟩ := behind
        obtain ⟨hne, hnext, hpending⟩ := h.go_back hnot
        have hbehind : cs.code '*' ∉ star_s.tail := fun hmem =>
          hstar _ rfl (List.mem_of_mem_tail hmem)
        have hdecided := ih _ (steps_left_go_back hne (c :: s) p) hnext hbehind (by
          rintro _ ⟨⟩
          exact hbehind) rfl
        refine hdecided.step hpending fun fuel => ?_
        rw [is_match_from_cons, if_neg hadvance, if_neg hp]
        rfl

/-- The matcher comes to an end, and tells whether the string matches. -/
theorem is_match_exact (cs : Charset) (s p : Bytes) (hs : cs.code '*' ∉ s) :
    ∃ result steps, (result = true ↔ Matches s (p.map (symbol cs))) ∧
      ∀ fuel ≥ steps, is_match cs fuel s p = some result := by
  have hstanding : Standing cs none s p := .no_star s p
  exact is_match_decided hstanding hs (by rintro _ ⟨⟩)

/-- `PAYROLL` has the form `P*RO?L`, found where the star stands for `AY`. -/
theorem is_match_exact_payroll : ∃ result steps,
    (result = true ↔
      Matches (ibm1047.str "PAYROLL") ((ibm1047.str "P*RO?L").map (symbol ibm1047))) ∧
    ∀ fuel ≥ steps,
      is_match ibm1047 fuel (ibm1047.str "PAYROLL") (ibm1047.str "P*RO?L") = some result :=
  is_match_exact ibm1047 (ibm1047.str "PAYROLL") (ibm1047.str "P*RO?L") (by decide)

end Zowex.zds
