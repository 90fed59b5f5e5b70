import Mathlib.Data.List.Lex
import Mathlib.Data.List.Sort
import Zowex.Lib.Inodes

/-! What lies below a directory, listed with each directory before what is in it and the names of
a directory in their order. Links are not followed. -/

namespace Inodes

namespace Files

variable {Name : Type} (fs : Files Name)

/-- The names lead from a directory to an object. -/
inductive Below : ℕ → List Name → ℕ → Prop
  | entry {d c : ℕ} {n : Name} : (n, c) ∈ fs.entries d → Below d [n] c
  | deeper {d e c : ℕ} {n : Name} {names : List Name} : (n, e) ∈ fs.entries d →
      fs.kind e = .directory → Below e names c → Below d (n :: names) c

variable [LinearOrder Name] (visible : Name → Bool)

def sorted_entries (d : ℕ) : List (Name × ℕ) :=
  ((fs.entries d).filter fun entry => visible entry.1).insertionSort fun a b => a.1 ≤ b.1

def listing : ℕ → ℕ → List (List Name × ℕ)
  | 0, _ => []
  | depth + 1, d => (fs.sorted_entries visible d).flatMap fun entry =>
      ([entry.1], entry.2) ::
        if fs.kind entry.2 = .directory then
          (listing depth entry.2).map fun below => (entry.1 :: below.1, below.2)
        else []

variable {fs visible} {depth d c : ℕ} {n : Name} {names : List Name}

omit [LinearOrder Name] in
theorem Below.ne_nil (h : fs.Below d names c) : names ≠ [] := by
  cases h <;> exact List.cons_ne_nil _ _

omit [LinearOrder Name] in
theorem below_cons : fs.Below d (n :: names) c ↔ (names = [] ∧ (n, c) ∈ fs.entries d) ∨
    ∃ e, (n, e) ∈ fs.entries d ∧ fs.kind e = .directory ∧ fs.Below e names c := by
  constructor
  · intro h
    cases h with
    | entry hentry => exact .inl ⟨rfl, hentry⟩
    | deeper hentry hkind hbelow => exact .inr ⟨_, hentry, hkind, hbelow⟩
  · rintro (⟨rfl, hentry⟩ | ⟨e, hentry, hkind, hbelow⟩)
    · exact .entry hentry
    · exact .deeper hentry hkind hbelow

theorem mem_sorted_entries : (n, c) ∈ fs.sorted_entries visible d ↔
    (n, c) ∈ fs.entries d ∧ visible n = true := by
  rw [sorted_entries, List.mem_insertionSort, List.mem_filter]

/-- The names of a directory differ, so that each comes before the next. -/
theorem sorted_entries_lt (d : ℕ) :
    (fs.sorted_entries visible d).Pairwise fun a b => a.1 < b.1 := by
  have hsorted : (fs.sorted_entries visible d).Pairwise fun a b => a.1 ≤ b.1 :=
    List.pairwise_insertionSort _ _
  have hperm : ((fs.sorted_entries visible d).map Prod.fst).Perm
      (((fs.entries d).filter fun entry => visible entry.1).map Prod.fst) :=
    (List.perm_insertionSort _ _).map _
  have hnodup : ((fs.sorted_entries visible d).map Prod.fst).Nodup :=
    hperm.nodup_iff.mpr ((List.filter_sublist.map Prod.fst).nodup (fs.names_nodup d))
  exact (hsorted.and (List.pairwise_map.mp hnodup)).imp fun h => lt_of_le_of_ne h.1 h.2

/-- Everything is listed that lies so deep at most, along names that are shown. -/
theorem mem_listing : (names, c) ∈ fs.listing visible depth d ↔
    names.length ≤ depth ∧ fs.Below d names c ∧ ∀ n ∈ names, visible n = true := by
  induction depth generalizing d names with
  | zero =>
    refine iff_of_false List.not_mem_nil fun h => h.2.1.ne_nil ?_
    exact List.eq_nil_of_length_eq_zero (Nat.le_zero.mp h.1)
  | succ depth ih =>
    rw [listing, List.mem_flatMap]
    cases names with
    | nil =>
      refine iff_of_false ?_ fun h => h.2.1.ne_nil rfl
      rintro ⟨entry, -, hmem⟩
      split_ifs at hmem <;> simp at hmem
    | cons n names =>
      rw [below_cons, List.length_cons, List.forall_mem_cons]
      constructor
      · rintro ⟨⟨m, e⟩, hentry, hmem⟩
        obtain ⟨hentry, hvisible⟩ := mem_sorted_entries.mp hentry
        rcases List.mem_cons.mp hmem with hhead | hmem
        · obtain ⟨hnames, rfl⟩ := Prod.mk.inj hhead
          obtain ⟨rfl, rfl⟩ := List.cons.inj hnames
          exact ⟨by simp, .inl ⟨rfl, hentry⟩, hvisible, by simp⟩
        · split_ifs at hmem with hkind
          · obtain ⟨⟨below, i⟩, hbelow, hsame⟩ := List.mem_map.mp hmem
            obtain ⟨hnames, rfl⟩ := Prod.mk.inj hsame
            obtain ⟨rfl, rfl⟩ := List.cons.inj hnames
            obtain ⟨hlength, hbelow, hall⟩ := ih.mp hbelow
            exact ⟨Nat.succ_le_succ hlength, .inr ⟨e, hentry, hkind, hbelow⟩, hvisible, hall⟩
          · cases hmem
      · rintro ⟨hlength, ⟨rfl, hentry⟩ | ⟨e, hentry, hkind, hbelow⟩, hvisible, hall⟩
        · exact ⟨(n, c), mem_sorted_entries.mpr ⟨hentry, hvisible⟩, List.mem_cons_self⟩
        · refine ⟨(n, e), mem_sorted_entries.mpr ⟨hentry, hvisible⟩, List.mem_cons_of_mem _ ?_⟩
          rw [if_pos hkind]
          exact List.mem_map.mpr ⟨(names, c), ih.mpr ⟨by omega, hbelow, hall⟩, rfl⟩

/-- Each comes once: a directory before what is in it, and the names in their order. -/
theorem listing_lt (depth d : ℕ) :
    (fs.listing visible depth d).Pairwise fun a b => List.Lex (· < ·) a.1 b.1 := by
  induction depth generalizing d with
  | zero => exact List.Pairwise.nil
  | succ depth ih =>
    rw [listing, List.pairwise_flatMap]
    have hhead {entry : Name × ℕ} {item : List Name × ℕ}
        (hitem : item ∈ ([entry.1], entry.2) :: (if fs.kind entry.2 = .directory then
          (fs.listing visible depth entry.2).map fun below => (entry.1 :: below.1, below.2)
          else [])) : ∃ rest, item.1 = entry.1 :: rest := by
      rcases List.mem_cons.mp hitem with rfl | hitem
      · exact ⟨[], rfl⟩
      · split_ifs at hitem
        · obtain ⟨below, -, rfl⟩ := List.mem_map.mp hitem
          exact ⟨below.1, rfl⟩
        · cases hitem
    constructor
    · intro entry hentry
      split_ifs
      · refine List.pairwise_cons.mpr ⟨fun item hitem => ?_, ?_⟩
        · obtain ⟨⟨below, i⟩, hbelow, rfl⟩ := List.mem_map.mp hitem
          obtain ⟨first, rest, rfl⟩ :=
            List.exists_cons_of_ne_nil (mem_listing.mp hbelow).2.1.ne_nil
          exact .cons .nil
        · exact List.pairwise_map.mpr ((ih entry.2).imp fun h => .cons h)
      · exact List.pairwise_singleton _ _
    · refine (sorted_entries_lt d).imp fun hlt a ha b hb => ?_
      obtain ⟨rest, hrest⟩ := hhead ha
      obtain ⟨rest', hrest'⟩ := hhead hb
      rw [hrest, hrest']
      exact .rel hlt

end Files

end Inodes
