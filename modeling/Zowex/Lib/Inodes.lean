import Mathlib.Data.List.Nodup
import Mathlib.Logic.Function.Basic
import Mathlib.Tactic

/-! File systems as POSIX has them. Objects are numbers, directories hold names of objects, and a
path is walked along its parts and through the symbolic links on it, as many as the limit allows. -/

namespace Inodes

/-- What stands between two slashes of a path. -/
inductive Component (Name : Type)
  | nothing
  | dot
  | dotdot
  | name (n : Name)
  deriving DecidableEq

def Component.name_of {Name : Type} : Component Name → Option Name
  | .name n => some n
  | _ => none

structure Path (Name : Type) where
  absolute : Bool
  parts : List (Component Name)
  deriving DecidableEq

inductive Kind (Name : Type)
  | directory
  | file
  | other
  | link (target : Path Name)
  deriving DecidableEq

/-- The objects below `next` are there. The directories are a tree, each at its depth. -/
structure Files (Name : Type) where
  kind : ℕ → Kind Name
  entries : ℕ → List (Name × ℕ)
  parent : ℕ → ℕ
  depth : ℕ → ℕ
  root : ℕ
  cwd : ℕ
  next : ℕ
  names_nodup : ∀ d, ((entries d).map Prod.fst).Nodup
  directory_of_entry : ∀ d n c, (n, c) ∈ entries d → kind d = .directory
  lt_of_entry : ∀ d n c, (n, c) ∈ entries d → d < next ∧ c < next
  parent_of_entry : ∀ d n c, (n, c) ∈ entries d → kind c = .directory → c ≠ root ∧ parent c = d
  parent_lt : ∀ d < next, parent d < next
  parent_directory : ∀ d < next, kind d = .directory → kind (parent d) = .directory
  depth_parent : ∀ d < next, kind d = .directory → d ≠ root → depth d = depth (parent d) + 1
  parent_root : parent root = root
  root_directory : kind root = .directory
  cwd_directory : kind cwd = .directory
  root_lt : root < next
  cwd_lt : cwd < next

/-- Where a path leads to, and how many links may still be followed there. -/
structure Arrival where
  left : ℕ
  object : ℕ
  deriving DecidableEq

namespace Files

variable {Name : Type} [DecidableEq Name] (fs : Files Name)

def lookup (d : ℕ) (n : Name) : Option ℕ :=
  ((fs.entries d).find? fun entry => entry.1 = n).map Prod.snd

def start (d : ℕ) (path : Path Name) : ℕ := if path.absolute then fs.root else d

def step (d : ℕ) : Component Name → Option ℕ
  | .nothing => some d
  | .dot => some d
  | .dotdot => some (fs.parent d)
  | .name n => fs.lookup d n

section

variable (search : ℕ → Bool)

/-- A step out of a directory that may be searched. Nothing at all is looked up in any. -/
def enter (d : ℕ) (part : Component Name) : Option ℕ :=
  if fs.kind d = .directory ∧ (part = .nothing ∨ search d = true) then fs.step d part else none

/-- The walk along the parts of a path, where `deeper` walks on along a link. A link that the path
ends with is followed or is the object itself. -/
def walk_with (deeper : ℕ → List (Component Name) → Option Arrival) (left : ℕ) (follow : Bool) (d : ℕ) :
    List (Component Name) → Option Arrival
  | [] => some ⟨left, d⟩
  | part :: rest =>
    (fs.enter search d part).bind fun c =>
      match fs.kind c with
      | .directory => walk_with deeper left follow c rest
      | .file => walk_with deeper left follow c rest
      | .other => walk_with deeper left follow c rest
      | .link target =>
        if rest = [] ∧ follow = false then some ⟨left, c⟩
        else deeper (fs.start d target) (target.parts ++ rest)

def walk : ℕ → Bool → ℕ → List (Component Name) → Option Arrival
  | 0, follow => fs.walk_with search (fun _ _ => none) 0 follow
  | left + 1, follow => fs.walk_with search (walk left follow) (left + 1) follow

/-- What is behind a link of which the walk may follow no more than `left`. -/
def deeper (left : ℕ) (follow : Bool) (d : ℕ) (parts : List (Component Name)) : Option Arrival :=
  match left with
  | 0 => none
  | left + 1 => fs.walk search left follow d parts

theorem walk_nil (left : ℕ) (follow : Bool) (d : ℕ) :
    fs.walk search left follow d [] = some ⟨left, d⟩ := by
  cases left <;> rfl

theorem walk_cons (left : ℕ) (follow : Bool) (d : ℕ) (part : Component Name) (rest : List (Component Name)) :
    fs.walk search left follow d (part :: rest) =
      (fs.enter search d part).bind fun c =>
        match fs.kind c with
        | .directory => fs.walk search left follow c rest
        | .file => fs.walk search left follow c rest
        | .other => fs.walk search left follow c rest
        | .link target =>
          if rest = [] ∧ follow = false then some ⟨left, c⟩
          else fs.deeper search left follow (fs.start d target) (target.parts ++ rest) := by
  cases left <;> rfl

end

/-! Names. -/

variable {fs}

theorem lookup_eq_some {d c : ℕ} {n : Name} : fs.lookup d n = some c ↔ (n, c) ∈ fs.entries d := by
  rw [lookup, Option.map_eq_some_iff]
  constructor
  · rintro ⟨⟨m, e⟩, hfind, rfl⟩
    obtain rfl : m = n := by simpa using List.find?_some hfind
    exact List.mem_of_find?_eq_some hfind
  · intro hmem
    have hsome : ((fs.entries d).find? fun entry => entry.1 = n).isSome = true :=
      List.find?_isSome.mpr ⟨(n, c), hmem, decide_eq_true rfl⟩
    obtain ⟨⟨m, e⟩, hfind⟩ := Option.isSome_iff_exists.mp hsome
    obtain rfl : m = n := by simpa using List.find?_some hfind
    have hsame : (m, e) = (m, c) := List.inj_on_of_nodup_map (fs.names_nodup d)
      (List.mem_of_find?_eq_some hfind) hmem rfl
    exact ⟨(m, e), hfind, congrArg Prod.snd hsame⟩

theorem lookup_eq_none {d : ℕ} {n : Name} :
    fs.lookup d n = none ↔ n ∉ (fs.entries d).map Prod.fst := by
  rw [lookup, Option.map_eq_none_iff, List.find?_eq_none, List.mem_map]
  constructor
  · rintro h ⟨entry, hentry, rfl⟩
    exact h entry hentry (decide_eq_true rfl)
  · intro h entry hentry hname
    exact h ⟨entry, hentry, of_decide_eq_true hname⟩

theorem lookup_lt {d c : ℕ} {n : Name} (h : fs.lookup d n = some c) : d < fs.next ∧ c < fs.next :=
  fs.lt_of_entry d n c (lookup_eq_some.mp h)

/-! Walks. -/

variable {search : ℕ → Bool} {left : ℕ} {follow : Bool} {d : ℕ}

theorem enter_eq_some {c : ℕ} {part : Component Name} : fs.enter search d part = some c ↔
    fs.kind d = .directory ∧ (part = .nothing ∨ search d = true) ∧ fs.step d part = some c := by
  rw [enter]
  split_ifs with h
  · exact ⟨fun hstep => ⟨h.1, h.2, hstep⟩, fun hstep => hstep.2.2⟩
  · exact ⟨fun hnone => absurd hnone (by simp), fun hstep => absurd ⟨hstep.1, hstep.2.1⟩ h⟩

theorem step_lt {c : ℕ} {part : Component Name} (hd : d < fs.next) (h : fs.step d part = some c) :
    c < fs.next := by
  cases part with
  | nothing | dot => exact Option.some.inj h ▸ hd
  | dotdot => exact Option.some.inj h ▸ fs.parent_lt d hd
  | name n => exact (lookup_lt h).2

theorem enter_lt {c : ℕ} {part : Component Name} (hd : d < fs.next)
    (h : fs.enter search d part = some c) : c < fs.next := step_lt hd (enter_eq_some.mp h).2.2

omit [DecidableEq Name] in
theorem start_lt (hd : d < fs.next) (path : Path Name) : fs.start d path < fs.next := by
  rw [start]
  split_ifs
  · exact fs.root_lt
  · exact hd

/-- The links of a walk are followed one after the other. -/
theorem walk_append {parts more : List (Component Name)} (hmore : more ≠ []) :
    fs.walk search left follow d (parts ++ more) =
      (fs.walk search left true d parts).bind fun arrival =>
        fs.walk search arrival.left follow arrival.object more := by
  induction left using Nat.strong_induction_on generalizing d parts with
  | h left ihleft =>
    induction parts generalizing d with
    | nil => rw [List.nil_append, walk_nil, Option.bind_some]
    | cons part rest ih =>
      rw [List.cons_append, walk_cons, walk_cons, Option.bind_assoc]
      congr 1
      funext c
      cases hkind : fs.kind c with
      | directory => exact ih
      | file => exact ih
      | other => exact ih
      | link target =>
        dsimp only
        rw [if_neg (by simp [hmore]), if_neg (by simp), ← List.append_assoc]
        cases left with
        | zero => rfl
        | succ left => exact ihleft left (Nat.lt_succ_self left)

theorem walk_lt {parts : List (Component Name)} {arrival : Arrival} (hd : d < fs.next)
    (h : fs.walk search left follow d parts = some arrival) : arrival.object < fs.next := by
  induction left using Nat.strong_induction_on generalizing d parts with
  | h left ihleft =>
    induction parts generalizing d with
    | nil =>
      rw [walk_nil, Option.some.injEq] at h
      exact h ▸ hd
    | cons part rest ih =>
      rw [walk_cons] at h
      obtain ⟨c, hc, hrest⟩ := Option.bind_eq_some_iff.mp h
      have hlt := enter_lt hd hc
      cases hkind : fs.kind c with
      | directory => exact ih hlt (by simpa only [hkind] using hrest)
      | file => exact ih hlt (by simpa only [hkind] using hrest)
      | other => exact ih hlt (by simpa only [hkind] using hrest)
      | link target =>
        simp only [hkind] at hrest
        split_ifs at hrest
        · exact Option.some.inj hrest ▸ hlt
        · cases left with
          | zero => cases hrest
          | succ left => exact ihleft left (Nat.lt_succ_self left) (start_lt hd target) hrest

/-! More names. -/

/-- What a path leads to stays where it is. -/
structure Grows (fs fs' : Files Name) (search search' : ℕ → Bool) : Prop where
  kind : ∀ d < fs.next, fs'.kind d = fs.kind d
  lookup : ∀ d n c, fs.lookup d n = some c → fs'.lookup d n = some c
  parent : ∀ d < fs.next, fs'.parent d = fs.parent d
  root : fs'.root = fs.root
  cwd : fs'.cwd = fs.cwd
  search : ∀ d < fs.next, search d = true → search' d = true

theorem Grows.trans {fs' fs'' : Files Name} {search search' search'' : ℕ → Bool}
    (h : Grows fs fs' search search') (h' : Grows fs' fs'' search' search'')
    (hnext : fs.next ≤ fs'.next) : Grows fs fs'' search search'' where
  kind d hd := (h'.kind d (hd.trans_le hnext)).trans (h.kind d hd)
  lookup d n c hlookup := h'.lookup d n c (h.lookup d n c hlookup)
  parent d hd := (h'.parent d (hd.trans_le hnext)).trans (h.parent d hd)
  root := h'.root.trans h.root
  cwd := h'.cwd.trans h.cwd
  search d hd hsearch := h'.search d (hd.trans_le hnext) (h.search d hd hsearch)

theorem Grows.enter {fs' : Files Name} {search' : ℕ → Bool} (h : Grows fs fs' search search')
    {c : ℕ} {part : Component Name} (hd : d < fs.next) (hc : fs.enter search d part = some c) :
    fs'.enter search' d part = some c := by
  obtain ⟨hkind, hsearch, hstep⟩ := enter_eq_some.mp hc
  refine enter_eq_some.mpr ⟨(h.kind d hd).trans hkind, hsearch.imp_right (h.search d hd), ?_⟩
  cases part with
  | nothing | dot => exact hstep
  | dotdot => exact (congrArg some (h.parent d hd)).trans hstep
  | name n => exact h.lookup d n c hstep

theorem Grows.walk {fs' : Files Name} {search' : ℕ → Bool} (h : Grows fs fs' search search')
    {parts : List (Component Name)} {arrival : Arrival} (hd : d < fs.next)
    (hwalk : fs.walk search left follow d parts = some arrival) :
    fs'.walk search' left follow d parts = some arrival := by
  induction left using Nat.strong_induction_on generalizing d parts with
  | h left ihleft =>
    induction parts generalizing d with
    | nil =>
      rw [walk_nil] at hwalk ⊢
      exact hwalk
    | cons part rest ih =>
      rw [walk_cons] at hwalk ⊢
      obtain ⟨c, hc, hrest⟩ := Option.bind_eq_some_iff.mp hwalk
      have hlt := enter_lt hd hc
      rw [h.enter hd hc, Option.bind_some, h.kind c hlt]
      cases hkind : fs.kind c with
      | directory => exact ih hlt (by simpa only [hkind] using hrest)
      | file => exact ih hlt (by simpa only [hkind] using hrest)
      | other => exact ih hlt (by simpa only [hkind] using hrest)
      | link target =>
        simp only [hkind] at hrest
        dsimp only
        split_ifs at hrest ⊢
        · exact hrest
        · have hstart : fs'.start d target = fs.start d target := by
            rw [start, start, h.root]
          rw [hstart]
          cases left with
          | zero => cases hrest
          | succ left => exact ihleft left (Nat.lt_succ_self left) (start_lt hd target) hrest

omit [DecidableEq Name] in
theorem mem_update_entries {d e c : ℕ} {n m : Name} :
    (m, c) ∈ Function.update fs.entries d (fs.entries d ++ [(n, fs.next)]) e ↔
      (m, c) ∈ fs.entries e ∨ e = d ∧ m = n ∧ c = fs.next := by
  by_cases he : e = d
  · subst he
    simp [Function.update_self]
  · simp [he]

/-- A new object and its name in a directory. -/
def add (fs : Files Name) (d : ℕ) (n : Name) (kind : Kind Name) (hd : d < fs.next)
    (hdirectory : fs.kind d = .directory) (hnew : fs.lookup d n = none) : Files Name where
  kind := Function.update fs.kind fs.next kind
  entries := Function.update fs.entries d (fs.entries d ++ [(n, fs.next)])
  parent := Function.update fs.parent fs.next d
  depth := Function.update fs.depth fs.next (fs.depth d + 1)
  root := fs.root
  cwd := fs.cwd
  next := fs.next + 1
  names_nodup := by
    intro e
    by_cases he : e = d
    · subst he
      rw [Function.update_self, List.map_append]
      refine List.nodup_append'.mpr ⟨fs.names_nodup e, List.nodup_singleton _, ?_⟩
      intro m hm hn
      obtain rfl : m = n := by simpa using hn
      exact lookup_eq_none.mp hnew hm
    · rw [Function.update_of_ne he]
      exact fs.names_nodup e
  directory_of_entry := by
    intro e m c hmem
    have he : e < fs.next ∧ fs.kind e = .directory := by
      rcases mem_update_entries.mp hmem with hold | ⟨rfl, -, -⟩
      · exact ⟨(fs.lt_of_entry e m c hold).1, fs.directory_of_entry e m c hold⟩
      · exact ⟨hd, hdirectory⟩
    rw [Function.update_of_ne he.1.ne]
    exact he.2
  lt_of_entry := by
    intro e m c hmem
    rcases mem_update_entries.mp hmem with hold | ⟨rfl, -, rfl⟩
    · have hlt := fs.lt_of_entry e m c hold
      omega
    · omega
  parent_of_entry := by
    intro e m c hmem hkind
    rcases mem_update_entries.mp hmem with hold | ⟨rfl, -, rfl⟩
    · have hlt := (fs.lt_of_entry e m c hold).2
      rw [Function.update_of_ne hlt.ne] at hkind ⊢
      exact fs.parent_of_entry e m c hold hkind
    · rw [Function.update_self]
      exact ⟨fs.root_lt.ne', rfl⟩
  parent_lt := by
    intro e he
    by_cases hnext : e = fs.next
    · rw [hnext, Function.update_self]
      omega
    · have hlt := fs.parent_lt e (by omega)
      rw [Function.update_of_ne hnext]
      omega
  parent_directory := by
    intro e he hkind
    by_cases hnext : e = fs.next
    · rw [hnext, Function.update_self, Function.update_of_ne hd.ne]
      exact hdirectory
    · have hlt := fs.parent_lt e (by omega)
      rw [Function.update_of_ne hnext] at hkind ⊢
      rw [Function.update_of_ne hlt.ne]
      exact fs.parent_directory e (by omega) hkind
  depth_parent := by
    intro e he hkind hroot
    by_cases hnext : e = fs.next
    · rw [hnext, Function.update_self, Function.update_self, Function.update_of_ne hd.ne]
    · have hlt := fs.parent_lt e (by omega)
      rw [Function.update_of_ne hnext] at hkind
      rw [Function.update_of_ne hnext, Function.update_of_ne hnext, Function.update_of_ne hlt.ne]
      exact fs.depth_parent e (by omega) hkind hroot
  parent_root := by
    rw [Function.update_of_ne fs.root_lt.ne]
    exact fs.parent_root
  root_directory := by
    rw [Function.update_of_ne fs.root_lt.ne]
    exact fs.root_directory
  cwd_directory := by
    rw [Function.update_of_ne fs.cwd_lt.ne]
    exact fs.cwd_directory
  root_lt := fs.root_lt.trans (Nat.lt_succ_self _)
  cwd_lt := fs.cwd_lt.trans (Nat.lt_succ_self _)

section

variable {n : Name} {kind : Kind Name} {hd : d < fs.next} {hdirectory : fs.kind d = .directory}
  {hnew : fs.lookup d n = none}

theorem add_lookup (e : ℕ) (m : Name) : (fs.add d n kind hd hdirectory hnew).lookup e m =
    if e = d ∧ m = n then some fs.next else fs.lookup e m := by
  apply Option.ext
  intro c
  rw [lookup_eq_some]
  have hmem := @mem_update_entries Name fs d e c n m
  rw [show (m, c) ∈ (fs.add d n kind hd hdirectory hnew).entries e ↔ _ from hmem]
  split_ifs with h
  · obtain ⟨rfl, rfl⟩ := h
    have hold : (m, c) ∉ fs.entries e := fun hold => by
      rw [lookup_eq_some.mpr hold] at hnew
      cases hnew
    simp [hold, eq_comm]
  · rw [lookup_eq_some]
    have hother : ¬ (e = d ∧ m = n ∧ c = fs.next) := fun hsame => h ⟨hsame.1, hsame.2.1⟩
    exact or_iff_left hother

theorem add_kind {e : ℕ} (he : e < fs.next) :
    (fs.add d n kind hd hdirectory hnew).kind e = fs.kind e := Function.update_of_ne he.ne _ _

theorem add_kind_next : (fs.add d n kind hd hdirectory hnew).kind fs.next = kind :=
  Function.update_self _ _ _

theorem add_parent {e : ℕ} (he : e < fs.next) :
    (fs.add d n kind hd hdirectory hnew).parent e = fs.parent e := Function.update_of_ne he.ne _ _

theorem add_grows {search search' : ℕ → Bool}
    (hsearch : ∀ e < fs.next, search e = true → search' e = true) :
    Grows fs (fs.add d n kind hd hdirectory hnew) search search' where
  kind _ he := add_kind he
  lookup e m c h := by
    rw [add_lookup, if_neg, h]
    rintro ⟨rfl, rfl⟩
    rw [hnew] at h
    cases h
  parent _ he := add_parent he
  root := rfl
  cwd := rfl
  search := hsearch

end

end Files

end Inodes
