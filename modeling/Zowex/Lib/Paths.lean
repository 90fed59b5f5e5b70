import Mathlib.Data.List.Basic
import Mathlib.Logic.Function.Iterate
import Mathlib.Tactic

/-! Path names: the steps they take through the directories of a file system, and the form that
`posix.join` puts them in without looking at any. -/

namespace Paths

abbrev Text := List Char

def dot : Text := ['.']

def dotdot : Text := ['.', '.']

def parts (path : Text) : List Text := path.splitOn '/'

def is_step (part : Text) : Bool := part ≠ [] && part ≠ dot

/-- The parts of a path that lead somewhere. -/
def steps (path : Text) : List Text := (parts path).filter is_step

/-- The steps to the directory of a file. -/
def directory_steps (file : Text) : List Text := (parts file).dropLast.filter is_step

def absolute (path : Text) : Bool := path.head? = some '/'

/-- The directories of a host. A name in a directory leads through links to any other. -/
structure FileSystem (Dir : Type) where
  root : Dir
  /-- Where the commands of a user start. -/
  home : Dir
  parent : Dir → Dir
  enter : Dir → Text → Option Dir
  parent_root : parent root = root
  below_root : ∀ d, ∃ k, parent^[k] d = root

namespace FileSystem

variable {Dir : Type} (fs : FileSystem Dir)

def step (d : Dir) (name : Text) : Option Dir :=
  if name = dotdot then some (fs.parent d) else fs.enter d name

def walk (fs : FileSystem Dir) (d : Dir) : List Text → Option Dir
  | [] => some d
  | name :: names => (fs.step d name).bind fun d => fs.walk d names

def start (path : Text) : Dir := if absolute path then fs.root else fs.home

/-- The directory that a path names. -/
def resolve (path : Text) : Option Dir :=
  if path = [] then none else fs.walk (fs.start path) (steps path)

/-- The directory that a path names a file of. -/
def directory_of (file : Text) : Option Dir :=
  fs.walk (fs.start file) (directory_steps file)

theorem walk_append (d : Dir) (names more : List Text) :
    fs.walk d (names ++ more) = (fs.walk d names).bind fun d => fs.walk d more := by
  induction names generalizing d with
  | nil => rfl
  | cons name names ih =>
    rw [List.cons_append, walk, walk, Option.bind_assoc]
    exact congrArg _ (funext ih)

theorem walk_root_dotdot (k : ℕ) (names : List Text) :
    fs.walk fs.root (List.replicate k dotdot ++ names) = fs.walk fs.root names := by
  induction k with
  | zero => rfl
  | succ k ih =>
    rw [List.replicate_succ, List.cons_append, walk, step, if_pos rfl, fs.parent_root]
    exact ih

end FileSystem

/-! `posix.normalize` and `posix.join`. -/

/-- One part in `normalizeString`, with the parts before it, the last one first. -/
def collapse (is_absolute : Bool) (stack : List Text) (part : Text) : List Text :=
  if part = dotdot then
    match stack with
    | [] => if is_absolute then [] else [dotdot]
    | top :: below => if top = dotdot then dotdot :: stack else below
  else part :: stack

def normal_steps (is_absolute : Bool) (names : List Text) : List Text :=
  (names.foldl (collapse is_absolute) []).reverse

def body (names : List Text) : Text := List.intercalate ['/'] names

def normalize (path : Text) : Text :=
  if path = [] then dot
  else
    let names := normal_steps (absolute path) (steps path)
    let trailing : Text := if path.getLast? = some '/' then ['/'] else []
    if absolute path then
      if names = [] then ['/'] else '/' :: body names ++ trailing
    else if names = [] then dot ++ trailing
    else body names ++ trailing

def join (path file : Text) : Text :=
  if path = [] then normalize file
  else if file = [] then normalize path
  else normalize (path ++ '/' :: file)

example : join "a//./b/../~c".toList "f".toList = "a/~c/f".toList := by decide +kernel

/-- A name that stands for itself. -/
structure Plain (name : Text) : Prop where
  slash : '/' ∉ name
  ne_nil : name ≠ []
  ne_dot : name ≠ dot
  ne_dotdot : name ≠ dotdot

theorem is_step_iff {part : Text} : is_step part = true ↔ part ≠ [] ∧ part ≠ dot := by
  simp [is_step]

theorem Plain.is_step {name : Text} (h : Plain name) : is_step name = true :=
  is_step_iff.mpr ⟨h.ne_nil, h.ne_dot⟩

theorem not_mem_of_mem_parts {path part : Text} (h : part ∈ parts path) : '/' ∉ part := by
  induction path generalizing part with
  | nil =>
    obtain rfl : part = [] := by simpa [parts] using h
    exact List.not_mem_nil
  | cons c path ih =>
    rw [parts, List.splitOn_cons_eq_if_modifyHead] at h
    by_cases hc : c = '/'
    · rw [if_pos (by simpa using hc)] at h
      obtain rfl | h := List.mem_cons.mp h
      · exact List.not_mem_nil
      · exact ih h
    · rw [if_neg (by simpa using hc)] at h
      obtain ⟨first, rest, hsplit⟩ := List.exists_cons_of_ne_nil (List.splitOn_ne_nil '/' path)
      rw [hsplit, List.modifyHead_cons] at h
      obtain rfl | h := List.mem_cons.mp h
      · have := @ih first (by rw [parts, hsplit]; exact List.mem_cons_self)
        exact fun hmem => (List.mem_cons.mp hmem).elim (fun h => hc h.symm) this
      · exact ih (by rw [parts, hsplit]; exact List.mem_cons_of_mem _ h)

theorem mem_steps {path name : Text} (h : name ∈ steps path) :
    '/' ∉ name ∧ name ≠ [] ∧ name ≠ dot := by
  obtain ⟨hpart, hstep⟩ := List.mem_filter.mp h
  exact ⟨not_mem_of_mem_parts hpart, is_step_iff.mp hstep⟩

/-- Taking away `.` and what is doubled: the steps of a path that goes back at its start alone. -/
def Forward (names : List Text) : Prop := ∃ k rest, names = List.replicate k dotdot ++ rest ∧
  dotdot ∉ rest

theorem collapse_name {is_absolute : Bool} {stack : List Text} {name : Text}
    (h : name ≠ dotdot) : collapse is_absolute stack name = name :: stack := if_neg h

theorem collapse_back {is_absolute : Bool} {top : Text} (h : top ≠ dotdot) (below : List Text) :
    collapse is_absolute (top :: below) dotdot = below :=
  (if_pos rfl).trans (if_neg h)

theorem collapse_dotdot {is_absolute : Bool} {k : ℕ} (h : is_absolute = true → k = 0) :
    collapse is_absolute (List.replicate k dotdot) dotdot =
      List.replicate (if is_absolute then 0 else k + 1) dotdot := by
  cases k with
  | zero => cases is_absolute <;> rfl
  | succ k =>
    cases is_absolute with
    | true => cases h rfl
    | false => rfl

theorem foldl_collapse_plain (is_absolute : Bool) (stack : List Text) {names : List Text}
    (h : dotdot ∉ names) : names.foldl (collapse is_absolute) stack = names.reverse ++ stack := by
  induction names generalizing stack with
  | nil => rfl
  | cons name names ih =>
    rw [List.mem_cons, not_or] at h
    rw [List.foldl_cons, collapse_name (Ne.symm h.1), ih _ h.2]
    simp

theorem foldl_collapse_dotdot (k j : ℕ) :
    (List.replicate k dotdot).foldl (collapse false) (List.replicate j dotdot) =
      List.replicate (k + j) dotdot := by
  induction k generalizing j with
  | zero => rw [Nat.zero_add, List.replicate_zero, List.foldl_nil]
  | succ k ih =>
    rw [List.replicate_succ, List.foldl_cons, collapse_dotdot (by simp),
      if_neg Bool.false_ne_true, ih]
    congr 1
    omega

theorem foldl_collapse_absolute (k : ℕ) :
    (List.replicate k dotdot).foldl (collapse true) [] = [] := by
  induction k with
  | zero => rfl
  | succ k ih => exact ih

/-- Steps that go forward are kept, but for those above the root. -/
theorem normal_steps_forward (is_absolute : Bool) (k : ℕ) {rest : List Text}
    (h : dotdot ∉ rest) : normal_steps is_absolute (List.replicate k dotdot ++ rest) =
      (if is_absolute then [] else List.replicate k dotdot) ++ rest := by
  have hdots : (List.replicate k dotdot).foldl (collapse is_absolute) [] =
      if is_absolute then [] else List.replicate k dotdot := by
    cases is_absolute with
    | true => exact foldl_collapse_absolute k
    | false => exact foldl_collapse_dotdot k 0
  rw [normal_steps, List.foldl_append, hdots, foldl_collapse_plain _ _ h]
  cases is_absolute <;> simp

/-- What is collapsed goes forward. -/
theorem forward_collapse (is_absolute : Bool) (names : List Text) {k : ℕ} {stack : List Text}
    (hstack : dotdot ∉ stack) (hroot : is_absolute = true → k = 0) :
    ∃ j rest, names.foldl (collapse is_absolute) (stack ++ List.replicate k dotdot) =
      rest ++ List.replicate j dotdot ∧ dotdot ∉ rest ∧ (is_absolute = true → j = 0) ∧
      ∀ name ∈ rest, name ∈ stack ∨ name ∈ names := by
  induction names generalizing k stack with
  | nil => exact ⟨k, stack, rfl, hstack, hroot, fun name hname => .inl hname⟩
  | cons name names ih =>
    rw [List.foldl_cons]
    have hmem {rest stack' : List Text} (hfold : ∀ n ∈ stack', n ∈ stack ∨ n = name)
        (h : ∀ n ∈ rest, n ∈ stack' ∨ n ∈ names) (n : Text) (hn : n ∈ rest) :
        n ∈ stack ∨ n ∈ name :: names := by
      obtain h | h := h n hn
      · refine (hfold n h).imp_right fun h => ?_
        rw [h]
        exact List.mem_cons_self
      · exact .inr (List.mem_cons_of_mem _ h)
    by_cases hname : name = dotdot
    · rw [hname]
      cases stack with
      | nil =>
        rw [List.nil_append, collapse_dotdot hroot]
        obtain ⟨j, rest, hfold, hrest, hj, hnames⟩ := ih List.not_mem_nil
          (k := if is_absolute then 0 else k + 1) (fun h => if_pos h)
        exact ⟨j, rest, hfold, hrest, hj, hname ▸ hmem (fun n hn => .inl hn) hnames⟩
      | cons top below =>
        rw [List.mem_cons, not_or] at hstack
        rw [List.cons_append, collapse_back (Ne.symm hstack.1)]
        obtain ⟨j, rest, hfold, hrest, hj, hnames⟩ := ih hstack.2 hroot
        exact ⟨j, rest, hfold, hrest, hj,
          hname ▸ hmem (fun n hn => .inl (List.mem_cons_of_mem _ hn)) hnames⟩
    · rw [collapse_name hname, ← List.cons_append]
      have hcons : dotdot ∉ name :: stack := fun h =>
        (List.mem_cons.mp h).elim (fun h => hname h.symm) hstack
      obtain ⟨j, rest, hfold, hrest, hj, hnames⟩ := ih hcons hroot
      exact ⟨j, rest, hfold, hrest, hj,
        hmem (fun n hn => (List.mem_cons.mp hn).symm) hnames⟩

theorem normal_steps_spec (is_absolute : Bool) (names : List Text) :
    ∃ j rest, normal_steps is_absolute names = List.replicate j dotdot ++ rest ∧ dotdot ∉ rest ∧
      (is_absolute = true → j = 0) ∧ ∀ name ∈ rest, name ∈ names := by
  obtain ⟨j, rest, hfold, hrest, hj, hnames⟩ :=
    @forward_collapse is_absolute names 0 [] List.not_mem_nil fun _ => rfl
  refine ⟨j, rest.reverse, ?_, by simpa using hrest, hj, fun name hname => ?_⟩
  · rw [normal_steps]
    simpa using congrArg List.reverse hfold
  · simpa using hnames name (List.mem_reverse.mp hname)

theorem mem_normal_steps {is_absolute : Bool} {names : List Text} {name : Text}
    (h : name ∈ normal_steps is_absolute names) : name = dotdot ∨ name ∈ names := by
  obtain ⟨j, rest, heq, -, -, hnames⟩ := normal_steps_spec is_absolute names
  rw [heq, List.mem_append] at h
  exact h.imp (List.eq_of_mem_replicate) (hnames name)

/-! The path of a file in a directory. -/

variable {path file : Text}

theorem absolute_append (h : path ≠ []) (more : Text) :
    absolute (path ++ more) = absolute path := by
  rw [absolute, absolute, List.head?_append_of_ne_nil _ h]

theorem steps_file (hfile : Plain file) : steps (path ++ '/' :: file) = steps path ++ [file] := by
  rw [steps, parts, List.splitOn_append_cons_self, List.splitOn_eq_singleton hfile.slash,
    List.filter_append, List.filter_singleton, hfile.is_step]
  rfl

theorem normal_steps_file (is_absolute : Bool) (names : List Text) (hfile : Plain file) :
    normal_steps is_absolute (names ++ [file]) = normal_steps is_absolute names ++ [file] := by
  rw [normal_steps, List.foldl_append, List.foldl_cons, List.foldl_nil,
    collapse_name hfile.ne_dotdot, List.reverse_cons, normal_steps]

/-- The file is named after the steps that are left of the directory's. -/
theorem join_eq (hpath : path ≠ []) (hfile : Plain file) : join path file =
    (if absolute path then ['/'] else []) ++
      body (normal_steps (absolute path) (steps path) ++ [file]) := by
  have hlast : (path ++ '/' :: file).getLast? ≠ some '/' := by
    rw [List.getLast?_append_of_ne_nil _ (List.cons_ne_nil _ _), List.getLast?_cons]
    intro h
    obtain ⟨last, hlast⟩ := Option.ne_none_iff_exists'.mp
      (mt List.getLast?_eq_none_iff.mp hfile.ne_nil)
    rw [hlast, Option.getD_some, Option.some.injEq] at h
    exact hfile.slash (h ▸ List.mem_of_getLast? hlast)
  have hne (names : List Text) : names ++ [file] ≠ [] := by simp
  rw [join, if_neg hpath, if_neg hfile.ne_nil, normalize, if_neg (by simp)]
  dsimp only
  rw [absolute_append hpath, steps_file hfile, normal_steps_file _ _ hfile, if_neg hlast,
    List.append_nil, if_neg (hne _), if_neg (hne _), List.append_nil]
  cases absolute path <;> rfl

theorem body_cons (name : Text) (names : List Text) :
    body (name :: names) = name ++ if names = [] then [] else '/' :: body names := by
  cases names with
  | nil => simp [body]
  | cons next names => simp [body, List.intercalate_cons_cons]

theorem parts_body {names : List Text} (hne : names ≠ []) (h : ∀ name ∈ names, '/' ∉ name) :
    parts (body names) = names := List.splitOn_intercalate '/' h hne

theorem absolute_body {names : List Text} (hne : names ≠ []) (hnil : ∀ name ∈ names, name ≠ [])
    (h : ∀ name ∈ names, '/' ∉ name) : absolute (body names) = false := by
  obtain ⟨name, names, rfl⟩ := List.exists_cons_of_ne_nil hne
  have hname : name ≠ [] := hnil name List.mem_cons_self
  rw [body_cons, absolute, List.head?_append_of_ne_nil _ hname, decide_eq_false_iff_not]
  exact fun hhead => h name List.mem_cons_self (List.mem_of_mem_head? hhead)

theorem join_steps (hpath : path ≠ []) (hfile : Plain file) :
    absolute (join path file) = absolute path ∧
      directory_steps (join path file) = normal_steps (absolute path) (steps path) := by
  have hsteps : ∀ name ∈ normal_steps (absolute path) (steps path), '/' ∉ name ∧ name ≠ [] ∧
      is_step name = true := by
    intro name hname
    obtain rfl | hname := mem_normal_steps hname
    · decide
    · obtain ⟨hslash, hnil, hdot⟩ := mem_steps hname
      exact ⟨hslash, hnil, is_step_iff.mpr ⟨hnil, hdot⟩⟩
  have hne : normal_steps (absolute path) (steps path) ++ [file] ≠ [] := by simp
  have hslash : ∀ name ∈ normal_steps (absolute path) (steps path) ++ [file], '/' ∉ name := by
    intro name hname
    obtain hname | hname := List.mem_append.mp hname
    · exact (hsteps name hname).1
    · exact List.mem_singleton.mp hname ▸ hfile.slash
  have hnil : ∀ name ∈ normal_steps (absolute path) (steps path) ++ [file], name ≠ [] := by
    intro name hname
    obtain hname | hname := List.mem_append.mp hname
    · exact (hsteps name hname).2.1
    · exact List.mem_singleton.mp hname ▸ hfile.ne_nil
  have hfilter : (normal_steps (absolute path) (steps path)).filter is_step =
      normal_steps (absolute path) (steps path) :=
    List.filter_eq_self.mpr fun name hname => (hsteps name hname).2.2
  rw [join_eq hpath hfile, directory_steps]
  cases habs : absolute path with
  | true =>
    rw [habs] at hne hslash hfilter
    have hparts : parts ('/' :: body (normal_steps true (steps path) ++ [file])) =
        [] :: (normal_steps true (steps path) ++ [file]) := by
      have := List.splitOn_append_cons_self (a := '/') []
        (body (normal_steps true (steps path) ++ [file]))
      rw [List.nil_append, List.splitOn_nil] at this
      rw [parts, this, ← parts, parts_body hne hslash]
      rfl
    rw [if_pos rfl, List.singleton_append, hparts, ← List.cons_append, List.dropLast_concat]
    exact ⟨rfl, hfilter⟩
  | false =>
    rw [habs] at hne hslash hfilter hnil
    rw [if_neg Bool.false_ne_true, List.nil_append, parts_body hne hslash, List.dropLast_concat,
      hfilter, absolute_body hne hnil hslash]
    exact ⟨rfl, rfl⟩

theorem suffix_body (names : List Text) (file : Text) : file <:+ body (names ++ [file]) := by
  induction names with
  | nil => simp [body]
  | cons name names ih =>
    rw [List.cons_append, body_cons, if_neg (by simp)]
    exact (ih.trans (List.suffix_cons _ _)).trans (List.suffix_append _ _)

theorem suffix_join (hpath : path ≠ []) (hfile : Plain file) : file <:+ join path file := by
  rw [join_eq hpath hfile]
  exact (suffix_body _ _).trans (List.suffix_append _ _)

theorem slash_mem_join (hpath : path ≠ []) (hfile : Plain file)
    (hne : normal_steps (absolute path) (steps path) ≠ []) : '/' ∈ join path file := by
  obtain ⟨name, names, hnames⟩ := List.exists_cons_of_ne_nil hne
  have hrest : names ++ [file] ≠ [] := by simp
  rw [join_eq hpath hfile, hnames, List.cons_append, body_cons, if_neg hrest]
  exact List.mem_append_right _ (List.mem_append_right _ List.mem_cons_self)

/-- The steps to a file below a directory that is named first. -/
theorem directory_steps_slash {name : Text} (hname : is_step name = true) (hslash : '/' ∉ name)
    (rest : Text) : directory_steps (name ++ '/' :: rest) =
      name :: directory_steps ('/' :: rest) := by
  have hsplit : parts ('/' :: rest) = [] :: parts rest := by
    have := List.splitOn_append_cons_self (a := '/') [] rest
    rw [List.nil_append, List.splitOn_nil] at this
    exact this
  have hne : parts rest ≠ [] := List.splitOn_ne_nil '/' rest
  rw [directory_steps, directory_steps, hsplit, parts,
    List.splitOn_append_cons_self_of_not_mem hslash, ← parts, List.dropLast_cons_of_ne_nil hne,
    List.dropLast_cons_of_ne_nil hne, List.filter_cons_of_pos hname,
    List.filter_cons_of_neg (by decide)]

theorem FileSystem.directory_of_join {Dir : Type} (fs : FileSystem Dir) (hpath : path ≠ [])
    (hfile : Plain file) :
    fs.directory_of (join path file) =
      fs.walk (fs.start path) (normal_steps (absolute path) (steps path)) := by
  obtain ⟨habs, hsteps⟩ := join_steps hpath hfile
  rw [directory_of, start, habs, hsteps, start]

/-- Steps that go forward lead to the same directory in their normal form. -/
theorem FileSystem.walk_normal_steps {Dir : Type} (fs : FileSystem Dir) (path : Text)
    {names : List Text}
    (h : Forward names) :
    fs.walk (fs.start path) (normal_steps (absolute path) names) =
      fs.walk (fs.start path) names := by
  obtain ⟨k, rest, rfl, hrest⟩ := h
  rw [normal_steps_forward _ _ hrest, start]
  cases absolute path with
  | true => exact (fs.walk_root_dotdot k rest).symm
  | false => rfl

/-! Directories that tell all ways apart: a name leads through a link to a directory of its own,
which lies deeper than any path goes back. -/

/-- The directory `n` below the root, and the one that names lead to from there. -/
def spread_parent (n : ℕ) : ℕ × List Text → ℕ × List Text
  | (i, []) => (i - 1, [])
  | (_, _ :: _) => (n, [])

theorem iterate_spread_parent (n i : ℕ) : (spread_parent n)^[i] (i, []) = (0, []) := by
  induction i with
  | zero => rfl
  | succ i ih => exact ih

def spread (n : ℕ) : FileSystem (ℕ × List Text) where
  root := (0, [])
  home := (1, [])
  parent := spread_parent n
  enter := fun d name => some (d.1, d.2 ++ [name])
  parent_root := rfl
  below_root := fun d => by
    obtain ⟨i, _ | ⟨name, names⟩⟩ := d
    · exact ⟨i, iterate_spread_parent n i⟩
    · exact ⟨n + 1, iterate_spread_parent n n⟩

theorem spread_walk_names (n i : ℕ) (names : List Text) {rest : List Text} (h : dotdot ∉ rest) :
    (spread n).walk (i, names) rest = some (i, names ++ rest) := by
  induction rest generalizing names with
  | nil => rw [FileSystem.walk, List.append_nil]
  | cons name rest ih =>
    rw [List.mem_cons, not_or] at h
    have hstep : (spread n).step (i, names) name = some (i, names ++ [name]) :=
      if_neg (Ne.symm h.1)
    rw [FileSystem.walk, hstep, Option.bind_some, ih _ h.2, List.append_assoc,
      List.singleton_append]

theorem spread_walk_dotdot (n i k : ℕ) (more : List Text) :
    (spread n).walk (i, []) (List.replicate k dotdot ++ more) =
      (spread n).walk (i - k, []) more := by
  induction k generalizing i with
  | zero => rfl
  | succ k ih =>
    have hstep : (spread n).step (i, []) dotdot = some (i - 1, []) := rfl
    rw [List.replicate_succ, List.cons_append, FileSystem.walk, hstep, Option.bind_some, ih]
    congr 2
    omega

theorem spread_walk_back (n i : ℕ) {names : List Text} (hne : names ≠ []) (more : List Text) :
    (spread n).walk (i, names) (dotdot :: more) = (spread n).walk (n, []) more := by
  obtain ⟨name, names, rfl⟩ := List.exists_cons_of_ne_nil hne
  rfl

/-- No more is gone back than there are steps. -/
theorem spread_walk_le {n : ℕ} {d : ℕ × List Text} {names : List Text} (h : d.1 ≤ n) :
    ∃ e : ℕ × List Text, (spread n).walk d names = some e ∧ d.1 ≤ e.1 + names.length := by
  induction names generalizing d with
  | nil => exact ⟨d, rfl, by simp⟩
  | cons name names ih =>
    rw [FileSystem.walk, List.length_cons]
    by_cases hname : name = dotdot
    · have hstep : (spread n).step d name = some (spread_parent n d) := if_pos hname
      rw [hstep, Option.bind_some]
      obtain ⟨i, _ | ⟨first, rest⟩⟩ := d
      · obtain ⟨e, he, hle⟩ := @ih (i - 1, []) ((Nat.sub_le i 1).trans h)
        exact ⟨e, he, by dsimp only at hle ⊢; omega⟩
      · obtain ⟨e, he, hle⟩ := @ih (n, []) le_rfl
        exact ⟨e, he, by dsimp only at hle h ⊢; omega⟩
    · have hstep : (spread n).step d name = some (d.1, d.2 ++ [name]) := if_neg hname
      rw [hstep, Option.bind_some]
      obtain ⟨e, he, hle⟩ := @ih (d.1, d.2 ++ [name]) h
      exact ⟨e, he, by dsimp only at hle ⊢; omega⟩

/-- Steps go forward, or one goes back from a name. -/
theorem forward_or_back (names : List Text) : Forward names ∨ ∃ k before after,
    names = List.replicate k dotdot ++ (before ++ dotdot :: after) ∧ before ≠ [] ∧
      dotdot ∉ before := by
  induction names with
  | nil => exact .inl ⟨0, [], rfl, List.not_mem_nil⟩
  | cons name names ih =>
    by_cases hname : name = dotdot
    · subst hname
      refine ih.imp ?_ ?_
      · rintro ⟨k, rest, rfl, hrest⟩
        exact ⟨k + 1, rest, rfl, hrest⟩
      · rintro ⟨k, before, after, rfl, h⟩
        exact ⟨k + 1, before, after, rfl, h⟩
    · by_cases hmem : dotdot ∈ names
      · obtain ⟨before, after, rfl, hbefore⟩ := List.eq_append_cons_of_mem hmem
        refine .inr ⟨0, name :: before, after, rfl, List.cons_ne_nil _ _, fun h => ?_⟩
        exact (List.mem_cons.mp h).elim (fun h => hname h.symm) hbefore
      · refine .inl ⟨0, name :: names, rfl, fun h => ?_⟩
        exact (List.mem_cons.mp h).elim (fun h => hname h.symm) hmem

theorem spread_start (n : ℕ) (path : Text) :
    (spread n).start path = (if absolute path then 0 else 1, []) := by
  rw [FileSystem.start]
  split
  next => rfl
  next => rfl

theorem steps_length_le (path : Text) : (steps path).length ≤ path.length + 1 := by
  refine (List.length_filter_le _ _).trans ?_
  induction path with
  | nil => simp [parts]
  | cons c path ih =>
    rw [parts, List.splitOn_cons_eq_if_modifyHead] at *
    split
    next => simpa using ih
    next =>
      rw [List.length_modifyHead, List.length_cons]
      exact ih.trans (Nat.le_succ _)

theorem spread_walk_forward (n i k : ℕ) {rest : List Text} (h : dotdot ∉ rest) :
    (spread n).walk (i, []) (List.replicate k dotdot ++ rest) = some (i - k, rest) := by
  rw [spread_walk_dotdot, spread_walk_names _ _ _ h, List.nil_append]

/-- Where the normal form leads to the same directory, the steps go forward. -/
theorem forward_of_spread {n : ℕ} {path : Text} (hn : path.length + 2 < n)
    (h : (spread n).walk ((spread n).start path) (normal_steps (absolute path) (steps path)) =
      (spread n).walk ((spread n).start path) (steps path)) : Forward (steps path) := by
  by_contra hback
  obtain ⟨k, before, after, hsteps, hbefore, hnames⟩ :=
    (forward_or_back (steps path)).resolve_left hback
  obtain ⟨j, rest, hnormal, hrest, -, -⟩ := normal_steps_spec (absolute path) (steps path)
  have hlength := steps_length_le path
  rw [hnormal, hsteps, spread_start, spread_walk_dotdot, spread_walk_names _ _ _ hrest,
    spread_walk_dotdot, FileSystem.walk_append, spread_walk_names _ _ _ hnames, Option.bind_some,
    List.nil_append, List.nil_append, spread_walk_back _ _ hbefore] at h
  obtain ⟨e, he, hle⟩ := @spread_walk_le n (n, []) after le_rfl
  rw [he, Option.some.injEq] at h
  subst h
  rw [hsteps] at hlength
  simp only [List.length_append, List.length_cons, List.length_replicate] at hlength
  dsimp only at hle
  split at hle
  next => omega
  next => omega

/-- A dot for the first character of a path leads elsewhere. -/
theorem spread_first_char {n : ℕ} {c : Char} {rest : Text} (hc : c ≠ '/') (hdot : c ≠ '.')
    (hn : rest.length + 2 < n) (h : Forward (steps ('.' :: rest))) :
    (spread n).resolve (c :: rest) ≠ (spread n).resolve ('.' :: rest) := by
  have hstart (d : Char) (hd : d ≠ '/') : (spread n).start (d :: rest) = (1, []) := by
    rw [spread_start, absolute]
    simp [hd]
  obtain ⟨first, others, hsplit⟩ := List.exists_cons_of_ne_nil (List.splitOn_ne_nil '/' rest)
  have hparts (d : Char) (hd : d ≠ '/') : parts (d :: rest) = (d :: first) :: others := by
    rw [parts, List.splitOn_cons_eq_if_modifyHead, if_neg (by simpa using hd), hsplit,
      List.modifyHead_cons]
  have hsteps : steps (c :: rest) = (c :: first) :: others.filter is_step := by
    rw [steps, hparts c hc, List.filter_cons_of_pos]
    rw [is_step_iff]
    exact ⟨List.cons_ne_nil _ _, fun heq => hdot (List.cons.inj heq).1⟩
  have hfirst : c :: first ≠ dotdot := fun heq => hdot (List.cons.inj heq).1
  have hdots : steps ('.' :: rest) =
      (if first = [] then [] else ['.' :: first]) ++ others.filter is_step := by
    rw [steps, hparts '.' (by decide)]
    split
    next hnil =>
      rw [hnil, List.filter_cons_of_neg (by decide)]
      rfl
    next hnil =>
      rw [List.filter_cons_of_pos]
      · rfl
      · rw [is_step_iff]
        exact ⟨List.cons_ne_nil _ _, fun heq => hnil (List.cons.inj heq).2⟩
  have hlength := steps_length_le (c :: rest)
  obtain ⟨k, names, hforward, hnames⟩ := h
  have hwalk (j : ℕ) {later : List Text} (hlater : dotdot ∉ later)
      (hothers : others.filter is_step = List.replicate j dotdot ++ later) :
      (spread n).resolve (c :: rest) =
        some (if j = 0 then (1, (c :: first) :: later) else (n - (j - 1), later)) := by
    have hstep : (spread n).walk (1, []) [c :: first] = some (1, [c :: first]) :=
      spread_walk_names n 1 [] (by simpa using Ne.symm hfirst)
    rw [FileSystem.resolve, if_neg (List.cons_ne_nil _ _), hstart c hc, hsteps, hothers,
      ← List.singleton_append, FileSystem.walk_append, hstep, Option.bind_some]
    cases j with
    | zero => exact spread_walk_names n 1 _ hlater
    | succ j =>
      rw [List.replicate_succ, List.cons_append, spread_walk_back n 1 (List.cons_ne_nil _ _),
        spread_walk_forward n n j hlater]
      rfl
  have hother : (spread n).resolve ('.' :: rest) = some (1 - k, names) := by
    rw [FileSystem.resolve, if_neg (List.cons_ne_nil _ _), hstart '.' (by decide), hforward,
      spread_walk_forward n 1 k hnames]
  rw [hdots] at hforward
  rw [hsteps, List.length_cons, List.length_cons] at hlength
  rw [hother]
  intro heq
  split at hforward
  next =>
    rw [List.nil_append] at hforward
    rw [hwalk k hnames hforward, Option.some.injEq] at heq
    rw [hforward, List.length_append, List.length_replicate] at hlength
    split at heq
    next => exact List.cons_ne_self _ _ (congrArg Prod.snd heq)
    next =>
      have := congrArg Prod.fst heq
      dsimp only at this
      omega
  next =>
    cases k with
    | zero =>
      rw [List.replicate_zero, List.nil_append, List.singleton_append] at hforward
      have hlater : dotdot ∉ others.filter is_step := fun hmem =>
        hnames (hforward ▸ List.mem_cons_of_mem _ hmem)
      rw [hwalk 0 hlater rfl, if_pos rfl, Option.some.injEq, ← hforward] at heq
      have := (List.cons.inj (congrArg Prod.snd heq)).1
      exact hdot (List.cons.inj this).1
    | succ k =>
      rw [List.replicate_succ, List.singleton_append, List.cons_append] at hforward
      have hothers := (List.cons.inj hforward).2
      rw [hwalk k hnames hothers, Option.some.injEq] at heq
      rw [hothers, List.length_append, List.length_replicate] at hlength
      have := congrArg Prod.fst heq
      split at this
      next => dsimp only at this; omega
      next => dsimp only at this; omega

end Paths
