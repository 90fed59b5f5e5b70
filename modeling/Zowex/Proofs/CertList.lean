import Zowex.Spec.CertList

/-! Listing the certificates of a key ring: the enumeration and the filters are the same loop with
a cap, and a fetch that fails before the loop ends fails the listing. -/

namespace Zowex.zkr

variable {cs : Charset} {failing : Option (ℕ × Failure)} {n cap : ℕ}
  {certs : List R_datalib_data_get} {out : List ZKRCertInfo} {label usage owner ring : Bytes}

/-! Fetches. -/

theorem fetched_failing {failure : Failure} (h : failing = some (n, failure)) :
    fetched failing n certs = .stop failure.response failure.nonzero := by
  cases certs <;> simp [fetched, h, Option.filter]

theorem filter_failing (h : ∀ failure, failing ≠ some (n, failure)) :
    (failing.filter fun failing => failing.1 = n) = none := by
  rw [Option.filter_eq_none_iff]
  intro failing' hsome hat
  obtain ⟨m, failure⟩ := failing'
  obtain rfl : m = n := of_decide_eq_true hat
  exact h failure hsome

theorem fetched_nil (h : ∀ failure, failing ≠ some (n, failure)) :
    fetched failing n [] = .stop END_OF_RING (by decide) := by
  rw [fetched, filter_failing h]

theorem fetched_cons (h : ∀ failure, failing ≠ some (n, failure)) (parm : R_datalib_data_get) :
    fetched failing n (parm :: certs) = .got parm (fetched failing (n + 1) certs) := by
  rw [fetched, filter_failing h]

/-! The enumeration. -/

/-- How many fetches the loop still makes, with so many entries already. -/
def asks (cap entries length : ℕ) : ℕ :=
  if cap = 0 then length + 1 else min (cap - entries + 1) (length + 1)

theorem asks_pos (cap entries length : ℕ) : 0 < asks cap entries length := by
  rw [asks]
  split <;> omega

theorem asks_succ {entries length : ℕ} (h : ¬ (cap ≠ 0 ∧ entries ≥ cap)) :
    asks cap entries (length + 1) = asks cap (entries + 1) length + 1 := by
  rw [asks, asks]
  split <;> omega

theorem asked_eq (cap length : ℕ) : Capped.asked cap length = asks cap 0 length := rfl

theorem next_loop_failing {failure : Failure} (h : failing = some (n, failure)) :
    (next_loop cs cap (fetched failing n certs) out).2 = .error (.saf failure.response) := by
  rw [fetched_failing h, next_loop, if_neg failure.not_end]

/-- The fetch that fails is one of those that are made. -/
theorem next_loop_fails {at_fetch : ℕ} {failure : Failure}
    (h : failing = some (at_fetch, failure)) (hlow : n ≤ at_fetch)
    (hhigh : at_fetch < n + asks cap out.length certs.length) :
    (next_loop cs cap (fetched failing n certs) out).2 = .error (.saf failure.response) := by
  induction certs generalizing n out with
  | nil =>
    have hone : asks cap out.length 0 ≤ 1 := by
      rw [asks]
      split <;> omega
    obtain rfl : at_fetch = n := by
      rw [List.length_nil] at hhigh
      omega
    exact next_loop_failing h
  | cons parm certs ih =>
    by_cases hhere : at_fetch = n
    · subst hhere
      exact next_loop_failing h
    · have hnot : ∀ failure, failing ≠ some (n, failure) := by
        intro failure' hsome
        rw [h] at hsome
        exact hhere (Prod.mk.inj (Option.some.inj hsome)).1
      rw [fetched_cons hnot, next_loop]
      by_cases hfull : cap ≠ 0 ∧ out.length ≥ cap
      · have hone : asks cap out.length (parm :: certs).length = 1 := by
          rw [asks, if_neg hfull.1]
          omega
        omega
      · rw [if_neg hfull]
        refine ih (by omega) ?_
        rw [List.length_cons, asks_succ hfull] at hhigh
        rw [List.length_append, List.length_singleton]
        omega

/-- None of those that are made fails. -/
theorem next_loop_gives (h : ∀ at_fetch failure, failing = some (at_fetch, failure) →
      at_fetch < n ∨ n + asks cap out.length certs.length ≤ at_fetch) :
    (next_loop cs cap (fetched failing n certs) out).2 =
      .ok (Capped.collect cap (certs.map (cert_item cs)) out) := by
  induction certs generalizing n out with
  | nil =>
    have hnot : ∀ failure, failing ≠ some (n, failure) := by
      intro failure hsome
      have hpos := asks_pos cap out.length 0
      have hfails := h n failure hsome
      rw [List.length_nil] at hfails
      omega
    rw [fetched_nil hnot, next_loop, if_pos rfl, List.map_nil, Capped.collect]
  | cons parm certs ih =>
    have hnot : ∀ failure, failing ≠ some (n, failure) := by
      intro failure hsome
      have hpos := asks_pos cap out.length (parm :: certs).length
      have hfails := h n failure hsome
      omega
    rw [fetched_cons hnot, next_loop, List.map_cons, Capped.collect]
    by_cases hfull : cap ≠ 0 ∧ out.length ≥ cap
    · rw [if_pos hfull, if_pos hfull]
    · rw [if_neg hfull, if_neg hfull]
      apply ih
      intro at_fetch failure hsome
      have hfails := h at_fetch failure hsome
      rw [List.length_cons, asks_succ hfull] at hfails
      rw [List.length_append, List.length_singleton]
      have hnext : at_fetch ≠ n := fun heq => hnot failure (heq ▸ hsome)
      omega

section

variable {fetches : R_datalib_parm_list_64 → Fetches} {held : Held}

theorem no_failure_at {needed : ℕ} (h : ¬ held.Fails needed) (hn : n < needed) (failure : Failure) :
    held.failing ≠ some (n, failure) :=
  fun hsome => h ⟨_, hsome, hn⟩

theorem list_ring_fails (hheld : fetches (get_first owner ring) = held.fetches)
    (h : held.Fails (Capped.asked cap held.certs.length)) :
    ∃ response, (zkr_list_ring cs fetches owner ring cap).result = .error (.saf response) := by
  obtain ⟨⟨at_fetch, failure⟩, hfailing, hlt⟩ := h
  refine ⟨failure.response, ?_⟩
  rw [zkr_list_ring, hheld, Held.fetches]
  by_cases hfirst : at_fetch = 0
  · subst hfirst
    rw [fetched_failing hfailing]
    dsimp only
    rw [if_neg failure.not_end]
  · have hnot : ∀ failure, held.failing ≠ some (0, failure) := by
      intro failure' hsome
      rw [hfailing] at hsome
      exact hfirst (Prod.mk.inj (Option.some.inj hsome)).1
    cases hcerts : held.certs with
    | nil =>
      rw [hcerts, asked_eq, asks] at hlt
      split at hlt <;> simp at hlt <;> omega
    | cons parm certs =>
      rw [fetched_cons hnot]
      refine next_loop_fails hfailing (by omega) ?_
      rw [hcerts, asked_eq, List.length_cons, asks_succ (by omega), Nat.zero_add] at hlt
      dsimp only at hlt
      rw [List.length_singleton]
      omega

theorem list_ring_gives (hheld : fetches (get_first owner ring) = held.fetches)
    (h : ¬ held.Fails (Capped.asked cap held.certs.length)) :
    (zkr_list_ring cs fetches owner ring cap).result =
      .ok (Capped.collect cap (held.certs.map (cert_item cs)) []) := by
  have hpos := asks_pos cap 0 held.certs.length
  have hnot := no_failure_at h hpos
  rw [zkr_list_ring, hheld, Held.fetches]
  cases hcerts : held.certs with
  | nil =>
    rw [fetched_nil hnot]
    dsimp only
    rw [if_pos rfl, List.map_nil, Capped.collect]
  | cons parm certs =>
    rw [fetched_cons hnot, List.map_cons, Capped.collect, if_neg (by simp)]
    apply next_loop_gives
    intro at_fetch failure hsome
    have hmade : ¬ at_fetch < Capped.asked cap held.certs.length := fun hlt => h ⟨_, hsome, hlt⟩
    rw [hcerts, asked_eq, List.length_cons, asks_succ (by omega), Nat.zero_add] at hmade
    rw [List.length_singleton]
    omega

/-- What a first fetch has opened is released by the last call. -/
theorem list_ring_released (hheld : fetches (get_first owner ring) = held.fetches) (hcerts : held.certs ≠ [])
    (h : ¬ held.Fails 1) : ∃ before last,
      (zkr_list_ring cs fetches owner ring cap).calls = before ++ [last] ∧
      last.function_code = .DATA_ABORT ∧ ∀ p ∈ before, p.function_code ≠ .DATA_ABORT := by
  obtain ⟨parm, certs, hcons⟩ := List.exists_cons_of_ne_nil hcerts
  rw [zkr_list_ring, hheld, Held.fetches, hcons, fetched_cons (no_failure_at h Nat.one_pos)]
  refine ⟨_, _, rfl, rfl, ?_⟩
  intro p hp
  rcases List.mem_cons.mp hp with rfl | hnext
  · simp [get_first, set_up_r_datalib_parameters]
  · rw [List.eq_of_mem_replicate hnext]
    simp [set_up_r_datalib_parameters]

theorem list_ring_not_opened (hheld : fetches (get_first owner ring) = held.fetches)
    (h : held.certs = [] ∨ held.Fails 1) :
    ∀ p ∈ (zkr_list_ring cs fetches owner ring cap).calls, p.function_code ≠ .DATA_ABORT := by
  have hstop : ∃ response nonzero, held.fetches = .stop response nonzero := by
    rw [Held.fetches]
    by_cases hfails : held.Fails 1
    · obtain ⟨⟨at_fetch, failure⟩, hfailing, hlt⟩ := hfails
      obtain rfl : at_fetch = 0 := Nat.lt_one_iff.mp hlt
      exact ⟨_, _, fetched_failing hfailing⟩
    · rw [h.resolve_right hfails, fetched_nil (no_failure_at hfails Nat.one_pos)]
      exact ⟨_, _, rfl⟩
  obtain ⟨response, nonzero, hstop⟩ := hstop
  rw [zkr_list_ring, hheld, hstop]
  simp [get_first, set_up_r_datalib_parameters]

end

/-! The filters. -/

theorem filter_loop_eq (certs out : List ZKRCertInfo) : filter_loop label usage cap certs out =
    Capped.collect cap (certs.filter fun info => Selected label usage info) out := by
  induction certs generalizing out with
  | nil => rfl
  | cons info certs ih =>
    rw [filter_loop]
    by_cases hlabel : label ≠ [] ∧ info.label ≠ label
    · have hnot : ¬ Selected label usage info := by
        rintro ⟨hempty | hsame, -⟩
        · exact hlabel.1 hempty
        · exact hlabel.2 hsame
      rw [if_pos hlabel, ih, List.filter_cons_of_neg (by simpa using hnot)]
    · rw [if_neg hlabel]
      by_cases husage : usage ≠ [] ∧ info.usage ≠ usage
      · have hnot : ¬ Selected label usage info := by
          rintro ⟨-, hempty | hsame⟩
          · exact husage.1 hempty
          · exact husage.2 hsame
        rw [if_pos husage, ih, List.filter_cons_of_neg (by simpa using hnot)]
      · have hselected : Selected label usage info := by
          constructor <;> tauto
        rw [if_neg husage, List.filter_cons_of_pos (by simpa using hselected), Capped.collect]
        by_cases hfull : cap ≠ 0 ∧ out.length ≥ cap
        · rw [if_pos hfull, if_pos hfull]
        · rw [if_neg hfull, if_neg hfull, ih]

theorem filter_certs_eq (certs : List ZKRCertInfo) : zkr_filter_certs certs label usage cap =
    Capped.collect cap (certs.filter fun info => Selected label usage info) [] :=
  filter_loop_eq certs []

theorem selected_all (h : has_filter label usage = false) (certs : List ZKRCertInfo) :
    (certs.filter fun info => Selected label usage info) = certs := by
  rw [has_filter, decide_eq_false_iff_not, not_or, not_not, not_not] at h
  rw [List.filter_eq_self]
  intro info _
  exact decide_eq_true ⟨.inl h.1, .inl h.2⟩

/-- The listing of any ring, with any fetch that fails. -/
theorem lists_first (cs : Charset) (rings : R_datalib_parm_list_64 → Held)
    (owner ring label usage : Bytes) (max_entries : ℤ) :
    ListsFirst (rings (get_first owner ring)) cs label usage max_entries
      (handle_cert_list cs (fun p => (rings p).fetches) owner ring label usage max_entries) := by
  generalize hfetches : (fun p => (rings p).fetches) = fetches
  have hheld : fetches (get_first owner ring) = (rings (get_first owner ring)).fetches := by
    rw [← hfetches]
  generalize rings (get_first owner ring) = held at hheld ⊢
  by_cases hnegative : max_entries < 0
  · rw [handle_cert_list, if_pos hnegative]
    refine ⟨fun _ => ⟨rfl, rfl⟩, ?_, ?_, ?_, by simp⟩
    · exact fun h => absurd hnegative (not_lt.mpr h)
    · exact fun h => absurd hnegative (not_lt.mpr h)
    · exact fun h => absurd hnegative (not_lt.mpr h)
  · rw [handle_cert_list, if_neg hnegative]
    have hneeded : held.needed label usage max_entries.toNat =
        Capped.asked (if has_filter label usage = true then 0 else max_entries.toNat)
          held.certs.length := by
      rw [Held.needed]
      split <;> rfl
    refine ⟨fun h => absurd h hnegative, ?_, ?_, ?_, ?_⟩
    · intro _ hfails
      rw [hneeded] at hfails
      obtain ⟨response, hresult⟩ := list_ring_fails hheld hfails
      exact ⟨response, by dsimp only; rw [hresult]; rfl⟩
    · intro _ hnot
      rw [hneeded] at hnot
      refine ⟨_, by dsimp only; rw [list_ring_gives hheld hnot]; rfl, ?_⟩
      dsimp only
      rw [filter_certs_eq, Capped.collect_eq, Capped.collect_eq, Held.selected]
      cases hfilter : has_filter label usage with
      | true => simp [Capped.capped]
      | false => simp [selected_all hfilter, Capped.capped_capped]
    · exact fun _ hcerts hfails => list_ring_released hheld hcerts hfails
    · exact list_ring_not_opened hheld

end Zowex.zkr
