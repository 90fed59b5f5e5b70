import Mathlib.Logic.Relation
import Zowex.Lib.Inodes

/-! Names taken away from a file system. A path leads to less then, but to nothing else. -/

namespace Inodes

namespace Files

variable {Name : Type} [DecidableEq Name]

/-- A directory loses a name. The object of the name stays, without it. -/
def erase (fs : Files Name) (d : ℕ) (n : Name) : Files Name where
  kind := fs.kind
  entries := Function.update fs.entries d ((fs.entries d).filter fun entry => entry.1 ≠ n)
  parent := fs.parent
  depth := fs.depth
  root := fs.root
  cwd := fs.cwd
  next := fs.next
  names_nodup := by
    intro e
    by_cases he : e = d
    · subst he
      rw [Function.update_self]
      exact (List.filter_sublist.map Prod.fst).nodup (fs.names_nodup e)
    · rw [Function.update_of_ne he]
      exact fs.names_nodup e
  directory_of_entry := by
    intro e m c hmem
    apply fs.directory_of_entry e m c
    by_cases he : e = d
    · subst he
      rw [Function.update_self] at hmem
      exact List.mem_of_mem_filter hmem
    · rwa [Function.update_of_ne he] at hmem
  lt_of_entry := by
    intro e m c hmem
    apply fs.lt_of_entry e m c
    by_cases he : e = d
    · subst he
      rw [Function.update_self] at hmem
      exact List.mem_of_mem_filter hmem
    · rwa [Function.update_of_ne he] at hmem
  parent_of_entry := by
    intro e m c hmem
    apply fs.parent_of_entry e m c
    by_cases he : e = d
    · subst he
      rw [Function.update_self] at hmem
      exact List.mem_of_mem_filter hmem
    · rwa [Function.update_of_ne he] at hmem
  parent_lt := fs.parent_lt
  parent_directory := fs.parent_directory
  depth_parent := fs.depth_parent
  parent_root := fs.parent_root
  root_directory := fs.root_directory
  cwd_directory := fs.cwd_directory
  root_lt := fs.root_lt
  cwd_lt := fs.cwd_lt

variable {fs fs' fs'' : Files Name} {d e c left : ℕ} {n m : Name} {follow : Bool}
  {search : ℕ → Bool} {gone gone' : ℕ → Name → Prop}

theorem mem_erase : (m, c) ∈ (fs.erase d n).entries e ↔
    (m, c) ∈ fs.entries e ∧ ¬ (e = d ∧ m = n) := by
  by_cases he : e = d
  · subst he
    simp [erase]
  · simp [erase, he]

/-- Nothing but names is taken away, and only where it says. -/
structure Shrinks (fs fs' : Files Name) (gone : ℕ → Name → Prop) : Prop where
  entries : ∀ e m c, (m, c) ∈ fs'.entries e → (m, c) ∈ fs.entries e
  kept : ∀ e m c, (m, c) ∈ fs.entries e → ¬ gone e m → (m, c) ∈ fs'.entries e
  kind : fs'.kind = fs.kind
  parent : fs'.parent = fs.parent
  depth : fs'.depth = fs.depth
  root : fs'.root = fs.root
  cwd : fs'.cwd = fs.cwd
  next : fs'.next = fs.next

omit [DecidableEq Name] in
theorem Shrinks.refl (fs : Files Name) (gone : ℕ → Name → Prop) : Shrinks fs fs gone where
  entries _ _ _ h := h
  kept _ _ _ h _ := h
  kind := rfl
  parent := rfl
  depth := rfl
  root := rfl
  cwd := rfl
  next := rfl

omit [DecidableEq Name] in
theorem Shrinks.mono (h : Shrinks fs fs' gone)
    (hgone : ∀ e m, fs.kind e = .directory → gone e m → gone' e m) : Shrinks fs fs' gone' :=
  { h with kept := fun e m c hmem hkept => h.kept e m c hmem fun hm =>
      hkept (hgone e m (fs.directory_of_entry e m c hmem) hm) }

omit [DecidableEq Name] in
theorem Shrinks.trans (h : Shrinks fs fs' gone) (h' : Shrinks fs' fs'' gone) :
    Shrinks fs fs'' gone where
  entries e m c hmem := h.entries e m c (h'.entries e m c hmem)
  kept e m c hmem hkept := h'.kept e m c (h.kept e m c hmem hkept) hkept
  kind := h'.kind.trans h.kind
  parent := h'.parent.trans h.parent
  depth := h'.depth.trans h.depth
  root := h'.root.trans h.root
  cwd := h'.cwd.trans h.cwd
  next := h'.next.trans h.next

theorem shrinks_erase (hgone : gone d n) : Shrinks fs (fs.erase d n) gone where
  entries _ _ _ h := (mem_erase.mp h).1
  kept _ _ _ h hkept := mem_erase.mpr ⟨h, by
    rintro ⟨rfl, rfl⟩
    exact hkept hgone⟩
  kind := rfl
  parent := rfl
  depth := rfl
  root := rfl
  cwd := rfl
  next := rfl

theorem lookup_erase : (fs.erase d n).lookup d n = none := by
  rw [lookup_eq_none, List.mem_map]
  rintro ⟨⟨m, c⟩, hmem, rfl⟩
  exact (mem_erase.mp hmem).2 ⟨rfl, rfl⟩

/-- Seen from what is left, what there was has grown. -/
theorem Shrinks.grows (h : Shrinks fs fs' gone) {search' : ℕ → Bool} (hsearch : search' = search) :
    Grows fs' fs search' search where
  kind _ _ := (congrFun h.kind _).symm
  lookup e m c hlookup := lookup_eq_some.mpr (h.entries e m c (lookup_eq_some.mp hlookup))
  parent _ _ := (congrFun h.parent _).symm
  root := h.root.symm
  cwd := h.cwd.symm
  search _ _ hd := hsearch ▸ hd

/-! The directories of a tree. -/

/-- A directory in a directory. -/
def Child (fs : Files Name) (e c : ℕ) : Prop := fs.kind c = .directory ∧ ∃ n, (n, c) ∈ fs.entries e

/-- The directories at or below a directory, without those behind links. -/
def Inside (fs : Files Name) : ℕ → ℕ → Prop := Relation.ReflTransGen fs.Child

omit [DecidableEq Name] in
theorem Child.depth (h : fs.Child e c) : fs.depth c = fs.depth e + 1 := by
  obtain ⟨hkind, n, hentry⟩ := h
  obtain ⟨hroot, hparent⟩ := fs.parent_of_entry e n c hentry hkind
  rw [fs.depth_parent c (fs.lt_of_entry e n c hentry).2 hkind hroot, hparent]

omit [DecidableEq Name] in
theorem Inside.depth_le (h : fs.Inside d e) : fs.depth d ≤ fs.depth e := by
  induction h with
  | refl => exact Nat.le_refl _
  | tail _ hchild ih =>
    have hdepth := hchild.depth
    omega

omit [DecidableEq Name] in
/-- What is in an entry of a directory is in the directory. -/
theorem Inside.of_entry (hentry : (n, c) ∈ fs.entries d) (hin : fs.Inside c e)
    (hkind : fs.kind e = .directory) : fs.Inside d e := by
  rcases hin.cases_head with rfl | ⟨x, ⟨-, m, hm⟩, -⟩
  · exact .single ⟨hkind, n, hentry⟩
  · exact .head ⟨fs.directory_of_entry c m x hm, n, hentry⟩ hin

omit [DecidableEq Name] in
theorem Child.ne (h : fs.Child d c) (hin : fs.Inside c e) : e ≠ d := by
  rintro rfl
  have hdepth := h.depth
  have hle := hin.depth_le
  omega

omit [DecidableEq Name] in
theorem Shrinks.child (h : Shrinks fs fs' gone) (hchild : fs'.Child e c) : fs.Child e c := by
  obtain ⟨hkind, n, hentry⟩ := hchild
  exact ⟨h.kind ▸ hkind, n, h.entries e n c hentry⟩

omit [DecidableEq Name] in
theorem Shrinks.inside (h : Shrinks fs fs' gone) (hin : fs'.Inside d e) : fs.Inside d e :=
  Relation.ReflTransGen.mono (fun _ _ => h.child) _ _ hin

/-- All directories from this one on are empty. -/
def Cleared (fs fs' : Files Name) (e : ℕ) : Prop := ∀ c, fs.Inside e c → fs'.entries c = []

/-- No name of a directory is taken away. -/
def Intact (fs fs' : Files Name) (e : ℕ) : Prop :=
  ∀ m c, (m, c) ∈ fs.entries e → (m, c) ∈ fs'.entries e

omit [DecidableEq Name] in
theorem Shrinks.nil (h : Shrinks fs fs' gone) (hnil : fs.entries e = []) : fs'.entries e = [] := by
  apply List.eq_nil_iff_forall_not_mem.mpr
  rintro ⟨m, c⟩ hmem
  have hold := h.entries e m c hmem
  rw [hnil] at hold
  exact List.not_mem_nil hold

omit [DecidableEq Name] in
theorem Cleared.shrinks (h : Cleared fs fs' e) (hshrinks : Shrinks fs' fs'' gone) :
    Cleared fs fs'' e :=
  fun c hc => hshrinks.nil (h c hc)

omit [DecidableEq Name] in
/-- Where each directory is as it was or cleared, what is cleared from what is left is cleared from
what there was. -/
theorem cleared_of_left
    (hpart : ∀ e, fs.Inside d e → Intact fs fs' e ∨ Cleared fs fs' e)
    (hkind : fs'.kind = fs.kind) (hshrinks : Shrinks fs' fs'' gone)
    (hclear : ∀ e, fs'.Inside d e → fs''.entries e = []) : Cleared fs fs'' d := by
  have hwalk : ∀ e, fs.Inside d e → fs'.Inside d e ∨ Cleared fs fs' e := by
    intro e he
    induction he with
    | refl => exact .inl .refl
    | @tail b c hb hchild ih =>
      rcases ih with hin | hcleared
      · rcases hpart b hb with hintact | hcleared
        · obtain ⟨hdirectory, n, hentry⟩ := hchild
          exact .inl (hin.tail ⟨hkind ▸ hdirectory, n, hintact n c hentry⟩)
        · exact .inr fun x hx => hcleared x (.head hchild hx)
      · exact .inr fun x hx => hcleared x (.head hchild hx)
  intro e he
  rcases hwalk e he with hin | hcleared
  · exact hclear e hin
  · exact hshrinks.nil (hcleared e .refl)

/-! Walks that end in a directory. -/

/-- A directory at the end of a path is no link that could be followed. -/
theorem walk_follow {parts : List (Component Name)} {arrival : Arrival}
    (h : fs.walk search left false d parts = some arrival)
    (hkind : ∀ target, fs.kind arrival.object ≠ .link target) :
    fs.walk search left true d parts = some arrival := by
  induction left using Nat.strong_induction_on generalizing d parts with
  | h left ihleft =>
    induction parts generalizing d with
    | nil =>
      rw [walk_nil] at h ⊢
      exact h
    | cons part rest ih =>
      rw [walk_cons] at h ⊢
      obtain ⟨c, hc, hrest⟩ := Option.bind_eq_some_iff.mp h
      rw [hc, Option.bind_some]
      cases hc' : fs.kind c with
      | directory => exact ih (by simpa only [hc'] using hrest)
      | file => exact ih (by simpa only [hc'] using hrest)
      | other => exact ih (by simpa only [hc'] using hrest)
      | link target =>
        simp only [hc'] at hrest
        dsimp only
        rw [if_neg (by simp)]
        split_ifs at hrest
        · rw [Option.some.injEq] at hrest
          subst hrest
          exact absurd hc' (hkind target)
        · cases left with
          | zero => cases hrest
          | succ left => exact ihleft left (Nat.lt_succ_self left) hrest

/-- A slash at the end is behind a directory. -/
theorem walk_slash {parts : List (Component Name)} {arrival : Arrival}
    (h : fs.walk search left follow d (parts ++ [.nothing]) = some arrival) :
    fs.kind arrival.object = .directory := by
  rw [walk_append (by simp)] at h
  obtain ⟨before, -, hlast⟩ := Option.bind_eq_some_iff.mp h
  rw [walk_cons] at hlast
  obtain ⟨c, hc, hrest⟩ := Option.bind_eq_some_iff.mp hlast
  obtain ⟨hkind, -, hstep⟩ := enter_eq_some.mp hc
  obtain rfl : before.object = c := Option.some.inj hstep
  simp only [hkind, walk_nil, Option.some.injEq] at hrest
  exact hrest ▸ hkind

/-- Slashes behind a directory lead to it. -/
theorem walk_slashes (hkind : fs.kind d = .directory) (k : ℕ) :
    fs.walk search left follow d (List.replicate k .nothing) = some ⟨left, d⟩ := by
  induction k with
  | zero => exact walk_nil ..
  | succ k ih =>
    have henter : fs.enter search d .nothing = some d :=
      enter_eq_some.mpr ⟨hkind, .inl rfl, rfl⟩
    rw [List.replicate_succ, walk_cons, henter, Option.bind_some, hkind]
    exact ih

end Files

end Inodes
