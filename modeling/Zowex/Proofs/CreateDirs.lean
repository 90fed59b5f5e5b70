import Zowex.Spec.UssFiles

/-! When the directories that are missing on a path are made. The path is created from its parent,
which is its text up to the last slash. -/

namespace Zowex.zusf

open Inodes Inodes.Files PathTexts

variable {cs : Charset} {fs : FileSystem cs} {absolute : Bool} {names front : List Bytes}
  {name : Bytes}

/-- The names of a path, with one slash between any two of them. -/
structure Names (cs : Charset) (names : List Bytes) : Prop where
  slash : ∀ name ∈ names, cs.code '/' ∉ name
  ne_nil : ∀ name ∈ names, name ≠ []

theorem Names.of_append {more : List Bytes} (h : Names cs (names ++ more)) : Names cs names where
  slash name hname := h.slash name (List.mem_append_left _ hname)
  ne_nil name hname := h.ne_nil name (List.mem_append_left _ hname)

def text (cs : Charset) (absolute : Bool) (names : List Bytes) : Bytes :=
  render (cs.code '/') absolute names

/-! System calls on the text of names. -/

abbrev parts (cs : Charset) (names : List Bytes) : List (Component (FileName cs)) :=
  names.map (part (cs.code '/') (cs.code '.'))

theorem start_lt (absolute : Bool) : (if absolute then fs.root else fs.cwd) < fs.next := by
  split_ifs
  · exact fs.root_lt
  · exact fs.cwd_lt

theorem reach_nothing (follow : Bool) (parts : List (Component (FileName cs))) :
    fs.reach follow true (.nothing :: parts) = fs.reach follow true parts := by
  have henter : fs.enter fs.searchable fs.root .nothing = some fs.root :=
    enter_eq_some.mpr ⟨fs.root_directory, .inl rfl, rfl⟩
  rw [FileSystem.reach, FileSystem.reach, if_pos rfl, walk_cons, henter, Option.bind_some,
    fs.root_directory]

/-- The slash that an absolute path starts with leads nowhere else. -/
theorem reach_text (follow : Bool) (parts : List (Component (FileName cs))) :
    fs.reach follow absolute ((if absolute then [.nothing] else []) ++ parts) =
      fs.reach follow absolute parts := by
  cases absolute with
  | true => exact reach_nothing follow parts
  | false => rfl

theorem file_path_text (hnames : Names cs names) (hne : names ≠ []) :
    file_path cs (text cs absolute names) =
      ⟨absolute, (if absolute then [.nothing] else []) ++ parts cs names⟩ :=
  path_render hne hnames.ne_nil hnames.slash

theorem text_ne_nil (hnames : Names cs names) (hne : names ≠ []) : text cs absolute names ≠ [] :=
  render_ne_nil hne hnames.ne_nil

theorem stat_text (hnames : Names cs names) (hne : names ≠ []) :
    fs.stat (text cs absolute names) = fs.reaches absolute names := by
  rw [FileSystem.stat, FileSystem.resolve, if_neg (text_ne_nil hnames hne),
    file_path_text hnames hne, reach_text]
  rfl

theorem reaches_nil : fs.reaches absolute [] = some (if absolute then fs.root else fs.cwd) := by
  rw [FileSystem.reaches, FileSystem.reach, List.map_nil, walk_nil]
  rfl

theorem stat_root : fs.stat (text cs true []) = some fs.root := by
  have hpath : file_path cs (text cs true []) = ⟨true, [.nothing, .nothing]⟩ := by
    have hsplit : [cs.code '/'].splitOn (cs.code '/') = [[], []] := by
      have happend := List.splitOn_append_cons_self (a := cs.code '/') [] []
      simpa using happend
    simp [file_path, path, text, render, hsplit, part_nil]
  rw [FileSystem.stat, FileSystem.resolve, if_neg (by simp [text, render]), hpath, reach_nothing,
    reach_nothing]
  exact reaches_nil

theorem reaches_append_eq_none {more : List Bytes} (h : fs.reaches absolute names = none) :
    fs.reaches absolute (names ++ more) = none := by
  by_cases hmore : parts cs more = []
  · rw [List.map_eq_nil_iff.mp hmore, List.append_nil]
    exact h
  · rw [FileSystem.reaches, Option.map_eq_none_iff, FileSystem.reach] at h ⊢
    rw [List.map_append, walk_append hmore, h]
    rfl

theorem parent_text (hnames : Names cs (names ++ [name])) (hne : names ≠ []) :
    cs.code '/' ∈ text cs absolute (names ++ [name]) ∧
      parent_path cs (text cs absolute (names ++ [name])) = text cs absolute names := by
  have hslash := hnames.slash name (by simp)
  rw [text, render_concat absolute hne, parent_path, before_last_append hslash]
  exact ⟨by simp, rfl⟩

/-- Where the last name would go. -/
theorem place_text (hnames : Names cs (names ++ [name])) :
    fs.place (text cs absolute (names ++ [name])) =
      (part (cs.code '/') (cs.code '.') name).name_of.bind fun n =>
        (fs.reaches absolute names).map fun d => (d, n) := by
  have hlast : part (cs.code '/') (cs.code '.') name ≠ .nothing :=
    part_ne_nothing (hnames.slash name (by simp)) (hnames.ne_nil name (by simp))
  rw [FileSystem.place, file_path_text hnames (by simp)]
  dsimp only
  have hparts : (if absolute then [Component.nothing] else []) ++ parts cs (names ++ [name]) =
      ((if absolute then [Component.nothing] else []) ++ parts cs names) ++
        [part (cs.code '/') (cs.code '.') name] := by
    simp
  rw [hparts, List.rdropWhile_concat_neg _ _ _ (by simpa using hlast), List.getLast?_concat,
    List.dropLast_concat, reach_text, Option.bind_some]
  congr 1
  funext n
  rw [FileSystem.reaches, Option.map_map]
  rfl

theorem reaches_lt {d : ℕ} (h : fs.reaches absolute names = some d) : d < fs.next := by
  obtain ⟨arrival, harrival, rfl⟩ := Option.map_eq_some_iff.mp h
  exact walk_lt (start_lt absolute) harrival

/-! One directory. -/

/-- `mkdir` and `chmod` as they follow on each other, which is what is done in the parent. -/
def attempt (fs : FileSystem cs) (file : Bytes) (mode : ℕ) : FileSystem cs × ℤ :=
  ((fs.mkdir file mode).1.chmod file mode, (fs.mkdir file mode).2)

/-- The directory with the mode that it gets in the end. -/
def make (fs : FileSystem cs) {d : ℕ} {n : FileName cs} (mode : ℕ) (h : fs.CanHold d n) :
    FileSystem cs := fs.add_directory d n mode h.lt h.directory h.unused

section

variable {d : ℕ} {n : FileName cs} {mode : ℕ}

theorem make_files (h : fs.CanHold d n) : (make fs mode h).toFiles =
    fs.toFiles.add d n .directory h.1 h.2.1 h.2.2.1 := rfl

theorem make_lookup (h : fs.CanHold d n) (e : ℕ) (m : FileName cs) :
    (make fs mode h).lookup e m = if e = d ∧ m = n then some fs.next else fs.lookup e m := by
  rw [make_files]
  exact add_lookup e m

theorem make_kind (h : fs.CanHold d n) {e : ℕ} (he : e < fs.next) :
    (make fs mode h).kind e = fs.kind e := by
  rw [make_files]
  exact add_kind he

theorem make_kind_next (h : fs.CanHold d n) : (make fs mode h).kind fs.next = .directory := by
  rw [make_files]
  exact add_kind_next

theorem make_grows (h : fs.CanHold d n) :
    Grows fs.toFiles (make fs mode h).toFiles fs.searchable (make fs mode h).searchable := by
  rw [make_files]
  refine add_grows fun e he hsearch => ?_
  rw [FileSystem.searchable] at hsearch ⊢
  rw [make, FileSystem.add_directory]
  dsimp only
  rw [Function.update_of_ne he.ne, Function.update_of_ne he.ne]
  exact hsearch

theorem Grows.reach {fs' : FileSystem cs} {follow : Bool} {parts : List (Component (FileName cs))}
    {arrival : Arrival}
    (h : Grows fs.toFiles fs'.toFiles fs.searchable fs'.searchable)
    (hlimit : fs'.symloop_max = fs.symloop_max)
    (hreach : fs.reach follow absolute parts = some arrival) :
    fs'.reach follow absolute parts = some arrival := by
  rw [FileSystem.reach] at hreach ⊢
  rw [hlimit, h.root, h.cwd]
  exact h.walk (start_lt absolute) hreach

theorem Grows.reaches {fs' : FileSystem cs}
    (h : Grows fs.toFiles fs'.toFiles fs.searchable fs'.searchable)
    (hlimit : fs'.symloop_max = fs.symloop_max)
    (hreach : fs.reaches absolute names = some d) : fs'.reaches absolute names = some d := by
  obtain ⟨arrival, harrival, rfl⟩ := Option.map_eq_some_iff.mp hreach
  exact Option.map_eq_some_iff.mpr ⟨arrival, Grows.reach h hlimit harrival, rfl⟩

/-- A step more on a path. -/
theorem reaches_concat (hreach : fs.reaches absolute names = some d) {c : ℕ}
    (henter : fs.enter fs.searchable d (part (cs.code '/') (cs.code '.') name) = some c)
    (hkind : fs.kind c = .directory) : fs.reaches absolute (names ++ [name]) = some c := by
  obtain ⟨arrival, harrival, rfl⟩ := Option.map_eq_some_iff.mp hreach
  rw [FileSystem.reach] at harrival
  rw [FileSystem.reaches, FileSystem.reach, List.map_append, walk_append (by simp), harrival,
    Option.bind_some, List.map_singleton, walk_cons, henter, Option.bind_some, hkind]
  dsimp only
  rw [walk_nil]
  rfl

theorem make_reaches (mode : ℕ) (h : fs.CanHold d n) (hreach : fs.reaches absolute names = some d) :
    (make fs mode h).reaches absolute (names ++ [n.val]) = some fs.next := by
  have hgrows := @make_grows cs fs d n mode h
  apply reaches_concat (Grows.reaches hgrows rfl hreach)
  · rw [part_name]
    exact enter_eq_some.mpr ⟨(hgrows.kind d h.1).trans h.2.1,
      .inr (hgrows.search d h.1 h.2.2.2.1), (make_lookup h d n).trans (if_pos ⟨rfl, rfl⟩)⟩
  · exact make_kind_next h

theorem set_mode_add (m : ℕ) (h : fs.CanHold d n) :
    (fs.add_directory d n m h.1 h.2.1 h.2.2.1).set_mode fs.next mode = make fs mode h := by
  rw [make, FileSystem.set_mode, FileSystem.add_directory, FileSystem.add_directory]
  dsimp only
  rw [Function.update_idem]

/-- A directory can be made where its parent can hold the name. -/
theorem attempt_text (mode : ℕ) (hnames : Names cs (names ++ [n.val]))
    (hreach : fs.reaches absolute names = some d) (h : fs.CanHold d n) :
    attempt fs (text cs absolute (names ++ [n.val])) mode = (make fs mode h, 0) := by
  have hmkdir : fs.mkdir (text cs absolute (names ++ [n.val])) mode =
      (make fs (Nat.ldiff mode fs.umask) h, 0) := by
    rw [FileSystem.mkdir, place_text hnames, hreach, part_name]
    dsimp only [Component.name_of, Option.bind_some, Option.map_some]
    rw [dif_pos h]
    rfl
  have hstat := @stat_text cs (make fs (Nat.ldiff mode fs.umask) h) absolute _ hnames (by simp)
  rw [make_reaches _ h hreach] at hstat
  have howns : (make fs (Nat.ldiff mode fs.umask) h).owns fs.next = true := by
    rw [FileSystem.owns, make, FileSystem.add_directory]
    simp
  rw [attempt, hmkdir]
  dsimp only
  rw [FileSystem.chmod, hstat]
  dsimp only
  rw [if_pos howns, make, set_mode_add]

/-- Nothing is made where the name cannot be held. -/
theorem mkdir_refused (mode : ℕ) (hnames : Names cs (names ++ [name]))
    (h : ∀ d n, fs.reaches absolute names = some d → name = n.val → ¬ fs.CanHold d n) :
    fs.mkdir (text cs absolute (names ++ [name])) mode = (fs, -1) := by
  rw [FileSystem.mkdir, place_text hnames]
  cases hname : (part (cs.code '/') (cs.code '.') name).name_of with
  | none => rfl
  | some n =>
    cases hreach : fs.reaches absolute names with
    | none => rfl
    | some d =>
      have hpart : part (cs.code '/') (cs.code '.') name = .name n := by
        cases hpart : part (cs.code '/') (cs.code '.') name with
        | name m =>
          rw [hpart] at hname
          exact congrArg Component.name (Option.some.inj hname)
        | nothing | dot | dotdot =>
          rw [hpart] at hname
          cases hname
      dsimp only [Option.bind_some, Option.map_some]
      rw [dif_neg (h d n hreach (part_eq_name.mp hpart))]

theorem attempt_refused (hnames : Names cs (names ++ [name]))
    (h : ∀ d n, fs.reaches absolute names = some d → name = n.val → ¬ fs.CanHold d n) :
    (attempt fs (text cs absolute (names ++ [name])) mode).2 = -1 ∧
      (fs.reaches absolute (names ++ [name]) = none →
        attempt fs (text cs absolute (names ++ [name])) mode = (fs, -1)) := by
  have hmkdir := mkdir_refused mode hnames h
  rw [attempt, hmkdir]
  refine ⟨rfl, fun hlost => ?_⟩
  rw [FileSystem.chmod, stat_text hnames (by simp), hlost]

end

/-! The parents. -/

section

variable {ofstream : Bytes → FileSystem cs → Option (FileSystem cs)} {mode : ℕ} {overwrite : Bool}

theorem create_new {file : Bytes} (hstat : fs.stat file = none ∨ overwrite = true) :
    zusf_create_uss_file_or_dir ofstream fs file mode ⟨true, overwrite⟩ =
      if cs.code '/' ∈ file ∧ fs.stat (parent_path cs file) = none then
        let parent :=
          zusf_create_uss_file_or_dir ofstream fs (parent_path cs file) mode ⟨true, false⟩
        if parent.2 ≠ 0 then parent else attempt parent.1 file mode
      else attempt fs file mode := by
  have hnew : ¬ ((fs.stat file).isSome && !overwrite) = true := by
    rcases hstat with hstat | rfl <;> simp [*]
  rw [zusf_create_uss_file_or_dir, if_neg hnew, if_pos rfl]
  by_cases hslash : cs.code '/' ∈ file
  · cases hparent : fs.stat (parent_path cs file) with
    | none => simp [hslash, attempt]
    | some d => simp [hslash, attempt]
  · simp [hslash, attempt]

/-- The parent of an empty path cannot be made. -/
theorem create_empty : zusf_create_uss_file_or_dir ofstream fs [] mode ⟨true, overwrite⟩ =
    (fs, -1) := by
  have hstat : fs.stat [] = none := rfl
  rw [create_new (.inl hstat), if_neg (by simp), attempt]
  have hparts : (file_path cs []).parts = [.nothing] := by simp [file_path, path, part_nil]
  have hplace : fs.place [] = none := by
    rw [FileSystem.place, hparts, List.rdropWhile_singleton]
    rfl
  have hmkdir : fs.mkdir [] mode = (fs, -1) := by rw [FileSystem.mkdir, hplace]
  rw [hmkdir, FileSystem.chmod, hstat]

/-- The parent of a path with one slash, before its first name, is empty. -/
theorem create_below_root (hnames : Names cs names) (hlength : names.length ≤ 1)
    (hnew : fs.stat (text cs true names) = none ∨ overwrite = true) :
    zusf_create_uss_file_or_dir ofstream fs (text cs true names) mode ⟨true, overwrite⟩ =
      (fs, -1) := by
  obtain ⟨name, htext, hname⟩ : ∃ name, text cs true names = [] ++ cs.code '/' :: name ∧
      cs.code '/' ∉ name := by
    rcases names with _ | ⟨name, _ | ⟨second, more⟩⟩
    · exact ⟨[], by simp [text, render], List.not_mem_nil⟩
    · exact ⟨name, by simp [text, render], hnames.slash name List.mem_cons_self⟩
    · simp at hlength
  have hparent : parent_path cs (text cs true names) = [] := by
    rw [htext]
    exact before_last_append hname
  have hslash : cs.code '/' ∈ text cs true names := by simp [htext]
  rw [create_new hnew, hparent, if_pos ⟨hslash, rfl⟩, create_empty]
  rfl

/-- A name in a directory that is there. -/
theorem create_first (hnames : Names cs (front ++ [name])) {d : ℕ}
    (hfront : fs.reaches absolute front = some d) (hroot : absolute = true → front ≠ [])
    (hnew : fs.stat (text cs absolute (front ++ [name])) = none ∨ overwrite = true) :
    zusf_create_uss_file_or_dir ofstream fs (text cs absolute (front ++ [name])) mode
        ⟨true, overwrite⟩ =
      attempt fs (text cs absolute (front ++ [name])) mode := by
  rw [create_new hnew, if_neg]
  rintro ⟨hslash, hparent⟩
  by_cases hne : front = []
  · subst hne
    have hrelative : absolute = false := Bool.eq_false_of_not_eq_true fun h => hroot h rfl
    subst hrelative
    have htext : text cs false ([] ++ [name]) = name := by simp [text, render]
    rw [htext] at hslash
    exact hnames.slash name (by simp) hslash
  · rw [(parent_text hnames hne).2, stat_text hnames.of_append hne, hfront] at hparent
    cases hparent

/-- A name behind it. -/
theorem create_next (hnames : Names cs (names ++ [name])) (hne : names ≠ [])
    (hlost : fs.reaches absolute names = none) :
    zusf_create_uss_file_or_dir ofstream fs (text cs absolute (names ++ [name])) mode
        ⟨true, overwrite⟩ =
      let parent :=
        zusf_create_uss_file_or_dir ofstream fs (text cs absolute names) mode ⟨true, false⟩
      if parent.2 ≠ 0 then parent
      else attempt parent.1 (text cs absolute (names ++ [name])) mode := by
  have hstat : fs.stat (text cs absolute (names ++ [name])) = none :=
    (stat_text hnames (by simp)).trans (reaches_append_eq_none hlost)
  have hparent := @parent_text cs absolute names name hnames hne
  have hnone : fs.stat (text cs absolute names) = none :=
    (stat_text hnames.of_append hne).trans hlost
  rw [create_new (.inl hstat), hparent.2, if_pos ⟨hparent.1, hnone⟩]

end

/-! The directories that are made one in the other. -/

theorem getElem?_concat {α : Type} {l : List α} {x y : α} {j : ℕ} :
    (l ++ [x])[j]? = some y ↔ l[j]? = some y ∨ j = l.length ∧ y = x := by
  rcases lt_trichotomy j l.length with hlt | rfl | hgt
  · rw [List.getElem?_append_left hlt]
    exact (or_iff_left fun h => hlt.ne h.1).symm
  · simp [eq_comm]
  · rw [List.getElem?_eq_none (by simp; omega), List.getElem?_eq_none hgt.le]
    simp [hgt.ne']

/-- The object that the names lead to when they have been made. -/
def last_made (fs : FileSystem cs) (missing : List Bytes) (d : ℕ) : ℕ :=
  if missing.length = 0 then d else fs.next + (missing.length - 1)

structure Chain (fs fs' : FileSystem cs) (absolute : Bool) (front missing : List Bytes)
    (d mode : ℕ) : Prop extends Made fs fs' absolute front missing d mode where
  grows : Grows fs.toFiles fs'.toFiles fs.searchable fs'.searchable
  reached : fs'.reaches absolute (front ++ missing) = some (last_made fs missing d)
  owner : ∀ j < missing.length, fs'.permission_class (fs.next + j) = .owner
  superuser : fs'.superuser = fs.superuser
  symloop_max : fs'.symloop_max = fs.symloop_max

section

variable {fs' : FileSystem cs} {missing : List Bytes} {d mode : ℕ}

theorem chain_nil (hreach : fs.reaches absolute front = some d) :
    Chain fs fs absolute front [] d mode where
  next := rfl
  directories j hj := absurd hj (Nat.not_lt_zero j)
  names i n c := by simp
  kept i hi := ⟨rfl, rfl, rfl, rfl⟩
  grows := ⟨fun _ _ => rfl, fun _ _ _ h => h, fun _ _ => rfl, rfl, rfl, fun _ _ h => h⟩
  reached := by
    rw [List.append_nil, hreach]
    rfl
  owner j hj := absurd hj (Nat.not_lt_zero j)
  superuser := rfl
  symloop_max := rfl

theorem make_old (mode : ℕ) {d : ℕ} {n : FileName cs} (h : fs.CanHold d n) {i : ℕ}
    (hi : i < fs.next) :
    (make fs mode h).kind i = fs.kind i ∧ (make fs mode h).parent i = fs.parent i ∧
      (make fs mode h).mode i = fs.mode i ∧
      (make fs mode h).permission_class i = fs.permission_class i := by
  refine ⟨make_kind h hi, ?_, Function.update_of_ne hi.ne _ _, Function.update_of_ne hi.ne _ _⟩
  rw [make_files]
  exact add_parent hi

theorem chain_concat (hchain : Chain fs fs' absolute front missing d mode) {n : FileName cs}
    (h : fs'.CanHold (last_made fs missing d) n) :
    Chain fs (make fs' mode h) absolute front (missing ++ [n.val]) d mode := by
  have hnext := hchain.next
  have hgrows := @make_grows cs fs' (last_made fs missing d) n mode h
  have hreached := make_reaches mode h hchain.reached
  rw [List.append_assoc] at hreached
  have hlast : last_made fs (missing ++ [n.val]) d = fs'.next := by
    rw [last_made, if_neg (by simp), hnext]
    simp
  refine ⟨⟨?_, fun j hj => ?_, fun i m c => ?_, fun i hi => ?_⟩, ?_, ?_, fun j hj => ?_, ?_, ?_⟩
  · rw [List.length_append, List.length_singleton, ← Nat.add_assoc, ← hnext]
    rfl
  · rw [List.length_append, List.length_singleton] at hj
    by_cases hjlast : j = missing.length
    · subst hjlast
      rw [List.take_of_length_le (by simp), ← hnext]
      exact ⟨hreached, make_kind_next h, Function.update_self _ _ _⟩
    · have hlt : j < missing.length := by omega
      obtain ⟨hold, hkind, hmode⟩ := hchain.directories j hlt
      obtain ⟨hkind', -, hmode', -⟩ := make_old mode h (show fs.next + j < fs'.next by omega)
      rw [List.take_append_of_le_length (by omega)]
      exact ⟨Grows.reaches hgrows rfl hold, hkind'.trans hkind, hmode'.trans hmode⟩
  · rw [make_lookup]
    by_cases hsame : i = last_made fs missing d ∧ m = n
    · obtain ⟨rfl, rfl⟩ := hsame
      have hnone := (hchain.names (last_made fs missing d) m c).not.mp (by rw [h.2.2.1]; simp)
      rw [if_pos ⟨rfl, rfl⟩, Option.some.injEq]
      constructor
      · rintro rfl
        exact .inr ⟨missing.length, getElem?_concat.mpr (.inr ⟨rfl, rfl⟩), hnext, rfl⟩
      · rintro (hold | ⟨j, hj, rfl, hi⟩)
        · exact absurd (.inl hold) hnone
        · rcases getElem?_concat.mp hj with hj | ⟨rfl, -⟩
          · exact absurd (.inr ⟨j, hj, rfl, hi⟩) hnone
          · exact hnext
    · rw [if_neg hsame, hchain.names]
      refine or_congr_right (exists_congr fun j => and_congr_left fun hplace => ?_)
      rw [getElem?_concat, or_iff_left]
      rintro ⟨rfl, hname⟩
      exact hsame ⟨hplace.2, Subtype.ext hname⟩
  · obtain ⟨hkind, hparent, hmode, hclass⟩ := hchain.kept i hi
    obtain ⟨hkind', hparent', hmode', hclass'⟩ := make_old mode h (show i < fs'.next by omega)
    exact ⟨hkind'.trans hkind, hparent'.trans hparent, hmode'.trans hmode, hclass'.trans hclass⟩
  · exact hchain.grows.trans hgrows (by omega)
  · rw [hlast]
    exact hreached
  · rw [List.length_append, List.length_singleton] at hj
    by_cases hjlast : j = missing.length
    · rw [hjlast, ← hnext]
      exact Function.update_self _ _ _
    · obtain ⟨-, -, -, hclass⟩ := make_old mode h (show fs.next + j < fs'.next by omega)
      exact hclass.trans (hchain.owner j (by omega))
  · exact hchain.superuser
  · exact hchain.symloop_max

end

/-! What is made of a path that leads nowhere. -/

section

variable {ofstream : Bytes → FileSystem cs → Option (FileSystem cs)} {mode d : ℕ}
  {overwrite : Bool} {first : Bytes} {rest : List Bytes}

/-- The first name cannot be made, and none behind it is. -/
theorem create_closed (hnames : Names cs (front ++ first :: rest))
    (hfront : fs.reaches absolute front = some d)
    (hlost : fs.reaches absolute (front ++ [first]) = none)
    (hclosed : (absolute = true ∧ front = []) ∨ ∀ n, first = n.val → ¬ fs.CanHold d n) :
    zusf_create_uss_file_or_dir ofstream fs (text cs absolute (front ++ first :: rest)) mode
      ⟨true, overwrite⟩ = (fs, -1) := by
  induction rest using List.reverseRecOn generalizing overwrite with
  | nil =>
    have hnone : fs.stat (text cs absolute (front ++ [first])) = none :=
      (stat_text hnames (by simp)).trans hlost
    by_cases hroot : absolute = true ∧ front = []
    · obtain ⟨rfl, rfl⟩ := hroot
      exact create_below_root hnames le_rfl (.inl hnone)
    · have hne : absolute = true → front ≠ [] := fun h hnil => hroot ⟨h, hnil⟩
      rw [create_first hnames hfront hne (.inl hnone)]
      apply (attempt_refused hnames fun d' n hreach hname => ?_).2 hlost
      obtain rfl : d = d' := Option.some.inj (hfront.symm.trans hreach)
      exact hclosed.resolve_left hroot n hname
  | append_singleton rest name ih =>
    rw [← List.cons_append, ← List.append_assoc] at hnames ⊢
    have hnone : fs.reaches absolute (front ++ first :: rest) = none := by
      have happend := @reaches_append_eq_none cs fs absolute (front ++ [first]) rest hlost
      rwa [List.append_assoc, List.singleton_append] at happend
    rw [create_next hnames (by simp) hnone, ih hnames.of_append]
    rfl

/-- The names behind the first one can be made. -/
def Continues (fs : FileSystem cs) (mode : ℕ) (rest : List Bytes) : Prop :=
  (∀ name ∈ rest, Plain (cs.code '/') (cs.code '.') name) ∧
    (rest ≠ [] → fs.superuser = true ∨ (mode.testBit 6 = true ∧ mode.testBit 7 = true))

theorem Continues.of_append {more : List Bytes} (h : Continues fs mode (rest ++ more)) :
    Continues fs mode rest :=
  ⟨fun name hname => h.1 name (List.mem_append_left _ hname),
    fun hne => h.2 fun hnil => hne (List.append_eq_nil_iff.mp hnil).1⟩

/-- A directory that was made can hold every name where the mode lets the process in. -/
theorem canHold_last {fs' : FileSystem cs} (hd : d < fs.next)
    (hchain : Chain fs fs' absolute front (first :: rest) d mode) (n : FileName cs) :
    fs'.CanHold (last_made fs (first :: rest) d) n ↔
      fs.superuser = true ∨ (mode.testBit 6 = true ∧ mode.testBit 7 = true) := by
  have hnext := hchain.next
  have hlast : last_made fs (first :: rest) d = fs.next + rest.length := by
    rw [last_made, if_neg (by simp)]
    simp
  rw [List.length_cons] at hnext
  obtain ⟨-, hkind, hmode⟩ := hchain.directories rest.length (by simp)
  have howner := hchain.owner rest.length (by simp)
  have hlookup : fs'.lookup (fs.next + rest.length) n = none := by
    apply Option.eq_none_iff_forall_ne_some.mpr
    intro c hc
    rcases (hchain.names _ _ _).mp hc with hold | ⟨j, hj, -, hplace⟩
    · have hlt := (lookup_lt hold).1
      omega
    · have hlt := (List.getElem?_eq_some_iff.mp hj).1
      rw [List.length_cons] at hlt
      split_ifs at hplace <;> omega
  rw [FileSystem.CanHold, hlast, hkind, hlookup, FileSystem.searchable, FileSystem.writable, howner,
    hmode, hchain.superuser]
  cases fs.superuser with
  | true => simp; omega
  | false => simp [PermissionClass.shift]; omega

theorem create_open (hnames : Names cs (front ++ first :: rest))
    (hfront : fs.reaches absolute front = some d)
    (hlost : fs.reaches absolute (front ++ [first]) = none) (hroot : absolute = true → front ≠ [])
    {n : FileName cs} (hname : first = n.val) (hhold : fs.CanHold d n) :
    let result := zusf_create_uss_file_or_dir ofstream fs
      (text cs absolute (front ++ first :: rest)) mode ⟨true, overwrite⟩
    (result.2 = 0 ↔ Continues fs mode rest) ∧
      (Continues fs mode rest → Chain fs result.1 absolute front (first :: rest) d mode) := by
  dsimp only
  induction rest using List.reverseRecOn generalizing overwrite with
  | nil =>
    subst hname
    rw [create_first hnames hfront hroot (.inl ((stat_text hnames (by simp)).trans hlost)),
      attempt_text mode hnames hfront hhold]
    have hcontinues : Continues fs mode [] := ⟨by simp, fun h => absurd rfl h⟩
    exact ⟨iff_of_true rfl hcontinues, fun _ => chain_concat (chain_nil hfront) hhold⟩
  | append_singleton rest name ih =>
    rw [← List.cons_append, ← List.append_assoc] at hnames ⊢
    have hnone : fs.reaches absolute (front ++ first :: rest) = none := by
      have happend := @reaches_append_eq_none cs fs absolute (front ++ [first]) rest hlost
      rwa [List.append_assoc, List.singleton_append] at happend
    obtain ⟨hok, hchain⟩ := @ih false hnames.of_append
    rw [create_next hnames (by simp) hnone]
    dsimp only
    by_cases hcontinues : Continues fs mode rest
    · have hparent := hok.mpr hcontinues
      have hchain := hchain hcontinues
      have hcan := canHold_last (reaches_lt hfront) hchain
      rw [if_neg (not_not.mpr hparent)]
      by_cases hnext : Continues fs mode (rest ++ [name])
      · have hplain := hnext.1 name (by simp)
        have hhold := (hcan ⟨name, hplain⟩).mpr (hnext.2 (by simp))
        rw [attempt_text mode (n := ⟨name, hplain⟩) hnames hchain.reached hhold]
        exact ⟨iff_of_true rfl hnext, fun _ => chain_concat hchain hhold⟩
      · refine ⟨iff_of_false ?_ hnext, fun h => absurd h hnext⟩
        rw [(attempt_refused hnames fun e m hreach hname hhold => hnext ?_).1]
        · decide
        · obtain rfl := Option.some.inj (hchain.reached.symm.trans hreach)
          refine ⟨fun other hother => ?_, fun _ => (hcan m).mp hhold⟩
          rcases List.mem_append.mp hother with hother | hother
          · exact hcontinues.1 other hother
          · rw [List.mem_singleton.mp hother, hname]
            exact m.property
    · have hparent := hok.not.mpr hcontinues
      rw [if_pos hparent]
      exact ⟨iff_of_false hparent fun h => hcontinues h.of_append,
        fun h => absurd h.of_append hcontinues⟩

/-- In a directory that may be searched only names lead nowhere. -/
theorem name_of_lost (hnames : Names cs (front ++ [first])) (hdirectory : fs.kind d = .directory)
    (hsearch : fs.searchable d = true) (hfront : fs.reaches absolute front = some d)
    (hlost : fs.reaches absolute (front ++ [first]) = none) :
    ∃ n : FileName cs, first = n.val := by
  have hnothing := @part_ne_nothing _ (cs.code '/') (cs.code '.') _ _
    (hnames.slash first (by simp)) (hnames.ne_nil first (by simp))
  have hstuck {c : ℕ} (henter : fs.step d (part (cs.code '/') (cs.code '.') first) = some c)
      (hkind : fs.kind c = .directory) : False := by
    have hreach :=
      reaches_concat hfront (enter_eq_some.mpr ⟨hdirectory, .inr hsearch, henter⟩) hkind
    rw [hlost] at hreach
    cases hreach
  cases hpart : part (cs.code '/') (cs.code '.') first with
  | nothing => exact absurd hpart hnothing
  | dot =>
    rw [hpart] at hstuck
    exact (hstuck rfl hdirectory).elim
  | dotdot =>
    rw [hpart] at hstuck
    exact (hstuck rfl (fs.parent_directory d (reaches_lt hfront) hdirectory)).elim
  | name n => exact ⟨n, part_eq_name.mp hpart⟩

theorem exists_missing {more : List Bytes} (hfront : fs.reaches absolute front = some d)
    (h : fs.reaches absolute (front ++ more) = none) :
    ∃ front' first rest e, Missing fs absolute (front ++ more) front' first rest e := by
  induction more generalizing front d with
  | nil =>
    rw [List.append_nil, hfront] at h
    cases h
  | cons name more ih =>
    cases hname : fs.reaches absolute (front ++ [name]) with
    | none => exact ⟨front, name, more, d, rfl, hfront, hname⟩
    | some e =>
      have hsplit : front ++ name :: more = (front ++ [name]) ++ more := by simp
      rw [hsplit] at h ⊢
      exact ih hname h

/-! What is made of a path that leads somewhere. -/

theorem reaches_append_some {more : List Bytes} {i : ℕ}
    (h : fs.reaches absolute (names ++ more) = some i) :
    ∃ d, fs.reaches absolute names = some d := by
  cases hreach : fs.reaches absolute names with
  | none =>
    rw [reaches_append_eq_none hreach] at h
    cases h
  | some d => exact ⟨d, rfl⟩

/-- What is reached has its name. -/
theorem not_canHold_of_reaches {n : FileName cs} {i : ℕ}
    (hfront : fs.reaches absolute front = some d)
    (h : fs.reaches absolute (front ++ [n.val]) = some i) : ¬ fs.CanHold d n := by
  intro hhold
  obtain ⟨arrival, harrival, rfl⟩ := Option.map_eq_some_iff.mp hfront
  have henter : fs.enter fs.searchable arrival.object (.name n) = none := by
    apply Option.eq_none_iff_forall_ne_some.mpr
    intro c hc
    have hlookup := (enter_eq_some.mp hc).2.2
    rw [Files.step, hhold.2.2.1] at hlookup
    cases hlookup
  rw [FileSystem.reach] at harrival
  rw [FileSystem.reaches, FileSystem.reach, List.map_append, walk_append (by simp), harrival,
    Option.bind_some, List.map_singleton, part_name, walk_cons, henter] at h
  cases h

/-- A path is overwritten: its mode is another, if its owner may change it. -/
theorem create_existing (hnames : Names cs names) (hne : absolute = true ∨ names ≠ []) {i : ℕ}
    (hreach : fs.reaches absolute names = some i) :
    zusf_create_uss_file_or_dir ofstream fs (text cs absolute names) mode ⟨true, true⟩ =
      (if absolute = true ∧ names.length ≤ 1 then fs
        else if fs.owns i = true then fs.set_mode i mode else fs, -1) := by
  by_cases hroot : absolute = true ∧ names.length ≤ 1
  · obtain ⟨rfl, hlength⟩ := hroot
    rw [create_below_root hnames hlength (.inr rfl), if_pos ⟨rfl, hlength⟩]
  · have hnil : names ≠ [] := by
      rcases hne with rfl | hne
      · rintro rfl
        exact hroot ⟨rfl, by simp⟩
      · exact hne
    obtain ⟨front, name, rfl⟩ : ∃ front name, names = front ++ [name] :=
      ⟨names.dropLast, names.getLast hnil, (List.dropLast_append_getLast hnil).symm⟩
    obtain ⟨d, hfront⟩ := reaches_append_some hreach
    have hne : absolute = true → front ≠ [] := by
      rintro habsolute rfl
      exact hroot ⟨habsolute, by simp⟩
    have hrefused := mkdir_refused mode hnames fun e n he hname => by
      subst hname
      exact not_canHold_of_reaches he hreach
    rw [create_first hnames hfront hne (.inr rfl), attempt, hrefused, if_neg hroot,
      FileSystem.chmod, stat_text hnames hnil, hreach]

theorem existing_iff (hnames : Names cs names) (hne : absolute = true ∨ names ≠ []) {i : ℕ}
    (hreach : fs.reaches absolute names = some i) :
    MakesDirectories fs absolute names mode
        (zusf_create_uss_file_or_dir ofstream fs (text cs absolute names) mode ⟨true, overwrite⟩) ↔
      Makeable fs absolute names mode overwrite := by
  have hnone {front rest : List Bytes} {first : Bytes} {d : ℕ}
      (hmissing : Missing fs absolute names front first rest d) : False := by
    have hlost := @reaches_append_eq_none cs fs absolute (front ++ [first]) rest hmissing.lost
    rw [List.append_assoc, List.singleton_append, ← hmissing.split, hreach] at hlost
    cases hlost
  cases overwrite with
  | false =>
    have hcreate : zusf_create_uss_file_or_dir ofstream fs (text cs absolute names) mode
        ⟨true, false⟩ = (fs, zjb.RTNCD_WARNING) := by
      have hstat : (fs.stat (text cs absolute names)).isSome = true := by
        by_cases hnil : names = []
        · subst hnil
          rw [hne.resolve_right (not_not.mpr rfl), stat_root]
          rfl
        · rw [stat_text hnames hnil, hreach]
          rfl
      rw [zusf_create_uss_file_or_dir, if_pos (by simp [hstat])]
    rw [hcreate]
    exact iff_of_true ⟨fun _ _ _ _ hmissing => (hnone hmissing).elim, fun _ _ _ => rfl⟩
      ⟨fun _ _ _ _ hmissing => (hnone hmissing).elim, fun h => absurd h Bool.false_ne_true⟩
  | true =>
    rw [create_existing hnames hne hreach]
    constructor
    · intro h
      refine ⟨fun _ _ _ _ hmissing => (hnone hmissing).elim, fun _ j hj => ?_⟩
      obtain rfl := Option.some.inj (hreach.symm.trans hj)
      have hkept := h.kept (by decide : (-1 : ℤ) ≠ 0) i (reaches_lt hreach)
      by_cases hroot : absolute = true ∧ names.length ≤ 1
      · exact .inl hroot
      · by_cases howns : fs.owns i = true
        · rw [if_neg hroot, if_pos howns] at hkept
          exact .inr (.inr (hkept.symm.trans (Function.update_self _ _ _)))
        · exact .inr (.inl (Bool.eq_false_of_not_eq_true howns))
    · intro h
      refine ⟨fun _ _ _ _ hmissing => (hnone hmissing).elim, fun _ j hj => ?_⟩
      rcases h.existing rfl i hreach with hroot | howns | hmode
      · rw [if_pos hroot]
      · simp [howns]
      · split_ifs
        · rfl
        · by_cases hsame : j = i
          · subst hsame
            exact (Function.update_self _ _ _).trans hmode.symm
          · exact Function.update_of_ne hsame _ _
        · rfl

theorem missing_iff (hnames : Names cs names) (hlost : fs.reaches absolute names = none) :
    MakesDirectories fs absolute names mode
        (zusf_create_uss_file_or_dir ofstream fs (text cs absolute names) mode ⟨true, overwrite⟩) ↔
      Makeable fs absolute names mode overwrite := by
  constructor
  · intro h
    refine ⟨fun front first rest d hmissing hopen => ?_, fun _ i hi => ?_⟩
    · obtain ⟨hok, -⟩ := h.made front first rest d hmissing hopen
      obtain ⟨rfl, hfront, hfirst⟩ := hmissing
      by_cases hclosed : (absolute = true ∧ front = []) ∨ ∀ n, first = n.val → ¬ fs.CanHold d n
      · rw [create_closed hnames hfront hfirst hclosed] at hok
        cases hok
      · simp only [not_or, not_forall, not_not, not_and] at hclosed
        obtain ⟨hroot, n, hname, hhold⟩ := hclosed
        have hcontinues := (create_open hnames hfront hfirst hroot hname hhold).1.mp hok
        refine ⟨hroot, fun m hm => ?_, hcontinues⟩
        obtain rfl : m = n := Subtype.ext (hm.symm.trans hname)
        exact hhold.2.2.1
    · rw [hlost] at hi
      cases hi
  · intro h
    have hmade {front rest : List Bytes} {first : Bytes} {d : ℕ}
        (hmissing : Missing fs absolute names front first rest d) (hopen : Open fs d) :
        (zusf_create_uss_file_or_dir ofstream fs (text cs absolute names) mode
          ⟨true, overwrite⟩).2 = 0 ∧
          Made fs (zusf_create_uss_file_or_dir ofstream fs (text cs absolute names) mode
            ⟨true, overwrite⟩).1 absolute front (first :: rest) d mode := by
      obtain ⟨hroot, hlookup, hcontinues⟩ := h.missing front first rest d hmissing hopen
      obtain ⟨rfl, hfront, hfirst⟩ := hmissing
      have hnames' : Names cs (front ++ [first]) := by
        rw [← List.singleton_append, ← List.append_assoc] at hnames
        exact hnames.of_append
      obtain ⟨n, hname⟩ := name_of_lost hnames' hopen.directory hopen.searchable hfront hfirst
      have hhold : fs.CanHold d n :=
        ⟨reaches_lt hfront, hopen.directory, hlookup n hname, hopen.searchable, hopen.writable⟩
      obtain ⟨hok, hchain⟩ := @create_open cs fs absolute front ofstream mode d overwrite first
        rest hnames hfront hfirst hroot n hname hhold
      exact ⟨hok.mpr hcontinues, (hchain hcontinues).toMade⟩
    refine ⟨fun front first rest d => hmade, fun hfailed i hi => ?_⟩
    obtain ⟨front, first, rest, d, hmissing⟩ :=
      @exists_missing cs fs absolute [] _ names reaches_nil hlost
    by_cases hclosed : (absolute = true ∧ front = []) ∨ ∀ n, first = n.val → ¬ fs.CanHold d n
    · obtain ⟨hsplit, hfront, hfirst⟩ := hmissing
      rw [List.nil_append] at hsplit
      subst hsplit
      rw [create_closed hnames hfront hfirst hclosed]
    · simp only [not_or, not_forall, not_not] at hclosed
      obtain ⟨-, n, -, hhold⟩ := hclosed
      exact absurd (hmade hmissing ⟨hhold.2.1, hhold.2.2.2.1, hhold.2.2.2.2⟩).1 hfailed

/-- The missing directories are made, or nothing of what is there changes, exactly if a directory
is made in one, of names that stand for nothing else, and the process may enter those it makes. -/
theorem makes_directories_iff (hnames : Names cs names) (hne : absolute = true ∨ names ≠ []) :
    MakesDirectories fs absolute names mode
        (zusf_create_uss_file_or_dir ofstream fs (text cs absolute names) mode ⟨true, overwrite⟩) ↔
      Makeable fs absolute names mode overwrite := by
  cases hreach : fs.reaches absolute names with
  | some i => exact existing_iff hnames hne hreach
  | none => exact missing_iff hnames hreach

end

/-- A root directory with nothing in it, which its owner may write to. -/
def bare_root : FileSystem ascii where
  kind _ := .directory
  entries _ := []
  parent _ := 0
  depth d := if d = 0 then 0 else 1
  root := 0
  cwd := 0
  next := 1
  names_nodup _ := List.nodup_nil
  directory_of_entry _ _ _ h := absurd h List.not_mem_nil
  lt_of_entry _ _ _ h := absurd h List.not_mem_nil
  parent_of_entry _ _ _ h := absurd h List.not_mem_nil
  parent_lt _ _ := Nat.zero_lt_one
  parent_directory _ _ _ := rfl
  depth_parent _ hd _ hroot := absurd (Nat.lt_one_iff.mp hd) hroot
  parent_root := rfl
  root_directory := rfl
  cwd_directory := rfl
  root_lt := Nat.zero_lt_one
  cwd_lt := Nat.zero_lt_one
  mode _ := 0o755
  permission_class _ := .owner
  superuser := false
  umask := 0o022
  symloop_max := 8

theorem names_a : Names ascii [ascii.str "a"] where
  slash name hname := by
    obtain rfl := List.mem_singleton.mp hname
    decide +kernel
  ne_nil name hname := by
    obtain rfl := List.mem_singleton.mp hname
    decide +kernel

/-- `create-dir a` -/
theorem makes_directories_iff_a :
    MakesDirectories bare_root false [ascii.str "a"] 0o755
        (zusf_create_uss_file_or_dir (fun _ _ => none) bare_root (text ascii false [ascii.str "a"])
          0o755 ⟨true, false⟩) ↔
      Makeable bare_root false [ascii.str "a"] 0o755 false :=
  makes_directories_iff names_a (.inr (List.cons_ne_nil _ _))

/-- `create-dir /a` -/
theorem nothing_made_below_root :
    ¬ MakesDirectories bare_root true [ascii.str "a"] 0o755
      (zusf_create_uss_file_or_dir (fun _ _ => none) bare_root (text ascii true [ascii.str "a"])
        0o755 ⟨true, false⟩) := by
  have hlost : bare_root.reaches true [ascii.str "a"] = none := by decide +kernel
  have hnew : bare_root.stat (text ascii true [ascii.str "a"]) = none :=
    (stat_text names_a (List.cons_ne_nil _ _)).trans hlost
  intro h
  obtain ⟨hok, -⟩ := h.made [] (ascii.str "a") [] 0 ⟨rfl, reaches_nil, hlost⟩
    ⟨rfl, by decide +kernel, by decide +kernel⟩
  rw [create_below_root names_a le_rfl (.inl hnew)] at hok
  cases hok

end Zowex.zusf
