import Zowex.Lib.Traversals
import Zowex.Proofs.CreateDirs
import Zowex.Spec.UssListing

/-! When a directory is listed as it should be. Each name is looked up behind the path of the
directory, and the parent behind what is left of that path at its last slash. -/

namespace Zowex.zusf

open Inodes Inodes.Files PathTexts

variable {cs : Charset} {fs : FileSystem cs} {options : ListOptions} {dir_path file : Bytes}
  {d e c left : ℕ} {n : FileName cs} {names front : List (FileName cs)}

/-- A path leads to a directory, with so many links that may be followed from there. -/
structure Leads (fs : FileSystem cs) (dir_path : Bytes) (d left : ℕ) : Prop where
  ne_nil : dir_path ≠ []
  reach : fs.reach true (file_path cs dir_path).absolute (file_path cs dir_path).parts =
    some ⟨left, d⟩
  directory : fs.kind d = .directory

theorem stat_eq_some (hdirectory : fs.kind d = .directory) :
    fs.stat dir_path = some d ↔ ∃ left, Leads fs dir_path d left := by
  rw [FileSystem.stat, FileSystem.resolve]
  constructor
  · intro h
    split_ifs at h with hnil
    obtain ⟨⟨left, object⟩, hreach, rfl⟩ := Option.map_eq_some_iff.mp h
    exact ⟨left, hnil, hreach, hdirectory⟩
  · rintro ⟨left, hleads⟩
    rw [if_neg hleads.ne_nil, hleads.reach]
    rfl

theorem Leads.lt (h : Leads fs dir_path d left) : d < fs.next := walk_lt (start_lt _) h.reach

theorem walk_nothing {follow : Bool} {arrival : Arrival} :
    fs.walk fs.searchable left follow d [.nothing] = some arrival ↔
      fs.kind d = .directory ∧ arrival = ⟨left, d⟩ := by
  rw [walk_cons, enter]
  by_cases hkind : fs.kind d = .directory
  · rw [if_pos ⟨hkind, .inl rfl⟩, Files.step, Option.bind_some, hkind]
    dsimp only
    rw [walk_nil]
    simp [eq_comm]
  · simp [hkind]

/-- What is behind the slash is looked up in the directory. -/
theorem reach_join (h : Leads fs dir_path d left) (follow : Bool) {more : Bytes}
    (hmore : (file_path cs more).parts ≠ []) :
    fs.reach follow (file_path cs (zusf_join_path cs dir_path more)).absolute
        (file_path cs (zusf_join_path cs dir_path more)).parts =
      fs.walk fs.searchable left follow d (file_path cs more).parts := by
  obtain ⟨before, hjoin, habsolute, hbefore⟩ : ∃ before,
      zusf_join_path cs dir_path more = before ++ cs.code '/' :: more ∧
        (file_path cs (before ++ [cs.code '/'])).absolute = (file_path cs dir_path).absolute ∧
        fs.reach true (file_path cs dir_path).absolute (file_path cs before).parts =
          some ⟨left, d⟩ := by
    rw [zusf_join_path]
    split_ifs with hlast
    · obtain ⟨before, hbefore⟩ := List.getLast?_eq_some_iff.mp hlast
      refine ⟨before, ?_, by rw [hbefore], ?_⟩
      · rw [hbefore, List.append_assoc, List.singleton_append]
      have hreach := h.reach
      have hparts : (file_path cs dir_path).parts = (file_path cs before).parts ++ [.nothing] := by
        rw [hbefore, file_path, path_append]
        dsimp only
        rw [path_slash_free List.not_mem_nil, part_nil]
        rfl
      rw [hparts, FileSystem.reach, walk_append (by simp)] at hreach
      obtain ⟨arrival, harrival, hnothing⟩ := Option.bind_eq_some_iff.mp hreach
      obtain ⟨-, hsame⟩ := walk_nothing.mp hnothing
      obtain ⟨hleft, hobject⟩ := Arrival.mk.inj hsame
      rw [FileSystem.reach, harrival, hleft, hobject]
    · refine ⟨dir_path, by simp, ?_, h.reach⟩
      rw [file_path, path, file_path, path, List.head?_append_of_ne_nil _ h.ne_nil]
  have hpath : file_path cs (before ++ cs.code '/' :: more) =
      ⟨(file_path cs (before ++ [cs.code '/'])).absolute,
        (file_path cs before).parts ++ (file_path cs more).parts⟩ := path_append
  rw [FileSystem.reach] at hbefore
  rw [hjoin, hpath, FileSystem.reach]
  dsimp only
  rw [walk_append hmore, habsolute, hbefore]
  rfl

theorem join_ne_nil (h : Leads fs dir_path d left) (more : Bytes) :
    zusf_join_path cs dir_path more ≠ [] := by
  rw [zusf_join_path]
  split_ifs <;> simp [h.ne_nil]

/-! Names below a directory. -/

theorem relative_path_parts (hne : names ≠ []) :
    (file_path cs (relative_path names)).parts = names.map .name := by
  have hrender : relative_path names = render (cs.code '/') false (names.map fun n => n.val) := rfl
  have hpath := @path_render _ (cs.code '/') (cs.code '.') _ false (names.map fun n => n.val)
    (mt List.map_eq_nil_iff.mp hne)
    (by
      intro name hname
      obtain ⟨n, -, rfl⟩ := List.mem_map.mp hname
      exact n.property.ne_nil)
    (by
      intro name hname
      obtain ⟨n, -, rfl⟩ := List.mem_map.mp hname
      exact n.property.slash)
  rw [hrender, file_path, hpath]
  simp [part_name]

theorem lstat_join (h : Leads fs dir_path d left) (hne : names ≠ []) :
    fs.lstat (zusf_join_path cs dir_path (relative_path names)) =
      (fs.walk fs.searchable left false d (names.map .name)).map Arrival.object := by
  have hparts := @relative_path_parts cs names hne
  rw [FileSystem.lstat, FileSystem.resolve, if_neg (join_ne_nil h _),
    reach_join h false (by simp [hparts, hne]), hparts]

theorem relative_path_singleton (n : FileName cs) : relative_path [n] = n.val := by
  simp [relative_path]

theorem relative_path_cons (n : FileName cs) (hne : names ≠ []) :
    relative_path (n :: names) = n.val ++ [cs.code '/'] ++ relative_path names := by
  obtain ⟨m, more, rfl⟩ := List.exists_cons_of_ne_nil hne
  simp [relative_path, List.intercalate_cons_cons]

theorem enter_name (hdirectory : fs.kind d = .directory) (hsearch : fs.searchable d = true)
    (hentry : (n, c) ∈ fs.entries d) : fs.enter fs.searchable d (.name n) = some c :=
  enter_eq_some.mpr ⟨hdirectory, .inr hsearch, lookup_eq_some.mpr hentry⟩

/-- A directory in a directory is led to by its name there. -/
theorem leads_join (h : Leads fs dir_path d left) (hsearch : fs.searchable d = true)
    (hentry : (n, c) ∈ fs.entries d) (hkind : fs.kind c = .directory) :
    Leads fs (zusf_join_path cs dir_path n.val) c left where
  ne_nil := join_ne_nil h _
  reach := by
    have hparts := @relative_path_parts cs [n] (List.cons_ne_nil _ _)
    rw [relative_path_singleton] at hparts
    rw [reach_join h true (by simp [hparts]), hparts, List.map_singleton, walk_cons,
      enter_name h.directory hsearch hentry, Option.bind_some, hkind]
    exact walk_nil ..
  directory := hkind

/-- A link that the names end with is not followed. -/
theorem walk_name (henter : fs.enter fs.searchable d (.name n) = some c) :
    fs.walk fs.searchable left false d [.name n] = some ⟨left, c⟩ := by
  rw [walk_cons, henter, Option.bind_some]
  cases fs.kind c with
  | directory | file | other => exact walk_nil ..
  | link target => exact if_pos ⟨rfl, rfl⟩

/-- The directory that a name leads through. -/
theorem under_cons (h : Under fs d (n :: front) e) (hkind : fs.kind e = .directory) :
    ∃ i, (n, i) ∈ fs.entries d ∧ fs.kind i = .directory ∧ Under fs i front e := by
  rcases h with ⟨hnil, -⟩ | hbelow
  · cases hnil
  · rcases below_cons.mp hbelow with ⟨rfl, hentry⟩ | ⟨i, hentry, hi, hrest⟩
    · exact ⟨e, hentry, hkind, .inl ⟨rfl, rfl⟩⟩
    · exact ⟨i, hentry, hi, .inr hrest⟩

theorem under_of_entry {i : ℕ} (hentry : (n, i) ∈ fs.entries d) (hkind : fs.kind i = .directory)
    (h : Under fs i front e) : Under fs d (n :: front) e := by
  rcases h with ⟨rfl, rfl⟩ | hbelow
  · exact .inr (.entry hentry)
  · exact .inr (.deeper hentry hkind hbelow)

/-- What is below leads on from each directory on the way. -/
theorem below_of_under {more : List (FileName cs)} (h : fs.Below d (front ++ n :: more) c)
    (hunder : Under fs d front e) : fs.kind e = .directory ∧ fs.Below e (n :: more) c := by
  induction front generalizing d with
  | nil =>
    obtain rfl : e = d := hunder.elim And.right fun hbelow => absurd rfl hbelow.ne_nil
    refine ⟨?_, h⟩
    rcases below_cons.mp h with ⟨-, hentry⟩ | ⟨i, hentry, -⟩
    · exact fs.directory_of_entry _ _ _ hentry
    · exact fs.directory_of_entry _ _ _ hentry
  | cons m front ih =>
    rw [List.cons_append] at h
    rcases below_cons.mp h with ⟨hnil, -⟩ | ⟨i, hentry, -, hrest⟩
    · simp at hnil
    · refine ih hrest ?_
      rcases hunder with ⟨hnil, -⟩ | hbelow
      · cases hnil
      · rcases below_cons.mp hbelow with ⟨rfl, hentry'⟩ | ⟨j, hentry', -, hrest'⟩
        · rw [Option.some.inj ((lookup_eq_some.mpr hentry).symm.trans
            (lookup_eq_some.mpr hentry'))]
          exact .inl ⟨rfl, rfl⟩
        · rw [Option.some.inj ((lookup_eq_some.mpr hentry).symm.trans
            (lookup_eq_some.mpr hentry'))]
          exact .inr hrest'

theorem below_concat (hunder : Under fs d front e) (hentry : (n, c) ∈ fs.entries e) :
    fs.Below d (front ++ [n]) c := by
  induction front generalizing d with
  | nil =>
    obtain rfl : e = d := hunder.elim And.right fun hbelow => absurd rfl hbelow.ne_nil
    exact .entry hentry
  | cons m front ih =>
    obtain ⟨i, hi, hkind, hrest⟩ := under_cons hunder (fs.directory_of_entry e n c hentry)
    exact .deeper hi hkind (ih hrest)

theorem walk_below (h : fs.Below d names c)
    (hsearch : ∀ front e m more, names = front ++ m :: more → Under fs d front e →
      fs.searchable e = true) :
    fs.walk fs.searchable left false d (names.map .name) = some ⟨left, c⟩ := by
  induction h with
  | @entry d c n hentry =>
    have hd := hsearch [] d n [] rfl (.inl ⟨rfl, rfl⟩)
    exact walk_name (enter_name (fs.directory_of_entry d n c hentry) hd hentry)
  | @deeper d e c n names hentry hkind hbelow ih =>
    have hd := hsearch [] d n names rfl (.inl ⟨rfl, rfl⟩)
    rw [List.map_cons, walk_cons, enter_name (fs.directory_of_entry d n e hentry) hd hentry,
      Option.bind_some, hkind]
    refine ih fun front i m more hsplit hunder => ?_
    exact hsearch (n :: front) i m more (congrArg (n :: ·) hsplit)
      (under_of_entry hentry hkind hunder)

/-- The walk goes through directories that may be searched. -/
theorem searchable_of_walk {more : List (FileName cs)} {arrival : Arrival}
    (h : fs.walk fs.searchable left false d ((front ++ n :: more).map .name) = some arrival)
    (hunder : Under fs d front e) (hkind : fs.kind e = .directory) : fs.searchable e = true := by
  induction front generalizing d with
  | nil =>
    obtain rfl : e = d := hunder.elim And.right fun hbelow => absurd rfl hbelow.ne_nil
    rw [List.nil_append, List.map_cons, walk_cons] at h
    obtain ⟨c, henter, -⟩ := Option.bind_eq_some_iff.mp h
    exact (enter_eq_some.mp henter).2.1.resolve_left (by simp)
  | cons m front ih =>
    obtain ⟨i, hentry, hi, hrest⟩ := under_cons hunder hkind
    rw [List.cons_append, List.map_cons, walk_cons] at h
    obtain ⟨c, henter, hwalk⟩ := Option.bind_eq_some_iff.mp h
    have hsame : i = c := Option.some.inj
      ((lookup_eq_some.mpr hentry).symm.trans (enter_eq_some.mp henter).2.2)
    rw [← hsame, hi] at hwalk
    exact ih hwalk hrest

/-! The collection. -/

theorem lt_iff (a b : FileName cs) : zut_string_compare_c b.val a.val = false ↔ a ≤ b := by
  rw [zut_string_compare_c, decide_eq_false_iff_not, not_lt]
  rfl

theorem current_entries_eq (options : ListOptions) (d : ℕ) :
    current_entries cs options ([cs.code '.'] :: [cs.code '.', cs.code '.'] ::
        (fs.entries d).map fun entry => entry.1.val) =
      (fs.sorted_entries (visible options) d).map fun entry => entry.1.val := by
  have hfilter : ((fs.entries d).map fun entry => entry.1.val).filter (fun name =>
      name ≠ [cs.code '.'] && name ≠ [cs.code '.', cs.code '.'] &&
        !(name.head? = some (cs.code '.') && !options.all_files)) =
      ((fs.entries d).filter fun entry => visible options entry.1).map fun entry =>
        entry.1.val := by
    rw [List.filter_map]
    congr 1
    refine List.filter_congr fun entry _ => ?_
    have hdot := entry.1.property.ne_dot
    have hdotdot := entry.1.property.ne_dotdot
    simp only [Function.comp_apply, visible]
    cases options.all_files with
    | false =>
      simp
      exact fun _ => ⟨hdot, hdotdot⟩
    | true =>
      simp
      exact ⟨hdot, hdotdot⟩
  rw [current_entries, List.filter_cons_of_neg (by simp), List.filter_cons_of_neg (by simp),
    hfilter, sorted_entries]
  refine (List.map_insertionSort _ _ _ _ fun a _ b _ => ?_).symm
  exact (lt_iff a.1 b.1).symm

theorem read_directory_eq (h : Leads fs dir_path d left) (hreadable : fs.readable d = true) :
    fs.read_directory dir_path = some ([cs.code '.'] :: [cs.code '.', cs.code '.'] ::
      (fs.entries d).map fun entry => entry.1.val) := by
  rw [FileSystem.read_directory, (stat_eq_some h.directory).mpr ⟨left, h⟩, Option.bind_some,
    if_pos ⟨h.directory, hreadable⟩]

/-- The directories that hold something so deep at most, and along names that are shown. -/
def SearchableTo (fs : FileSystem cs) (options : ListOptions) (depth d : ℕ) : Prop :=
  ∀ names e n c, Under fs d names e → fs.Below d (names ++ [n]) c →
    (names ++ [n]).length ≤ depth → (∀ m ∈ names ++ [n], visible options m = true) →
    fs.searchable e = true

theorem Readable.entry (h : Readable fs d) (hentry : (n, c) ∈ fs.entries d)
    (hkind : fs.kind c = .directory) : Readable fs c :=
  fun names e hunder => h (n :: names) e (under_of_entry hentry hkind hunder)

theorem SearchableTo.entry {depth : ℕ} (h : SearchableTo fs options (depth + 1) d)
    (hentry : (n, c) ∈ fs.entries d) (hvisible : visible options n = true)
    (hkind : fs.kind c = .directory) : SearchableTo fs options depth c := by
  intro names e m i hunder hbelow hlength hall
  refine h (n :: names) e m i (under_of_entry hentry hkind hunder) (.deeper hentry hkind hbelow)
    (by simpa using hlength) ?_
  rw [List.cons_append, List.forall_mem_cons]
  exact ⟨hvisible, hall⟩

theorem SearchableTo.self {depth : ℕ} (h : SearchableTo fs options (depth + 1) d)
    (hentry : (n, c) ∈ fs.entries d) (hvisible : visible options n = true) :
    fs.searchable d = true :=
  h [] d n c (.inl ⟨rfl, rfl⟩) (.entry hentry) (by simp) (by simpa using hvisible)

/-- The names collected are the paths to what is below. -/
theorem collect_eq {depth current_depth : ℕ} (h : Leads fs dir_path d left)
    (hdepth : options.max_depth = current_depth + depth + 1) (hreadable : Readable fs d)
    (hsearch : SearchableTo fs options (depth + 1) d) :
    zusf_collect_directory_entries_recursive fs options dir_path current_depth =
      some ((fs.listing (visible options) (depth + 1) d).map fun entry =>
        relative_path entry.1) := by
  induction depth generalizing current_depth dir_path d with
  | zero =>
    have hlast : ¬ (options.max_depth > 1 ∧ (current_depth : ℤ) < options.max_depth - 1) := by
      omega
    rw [zusf_collect_directory_entries_recursive,
      read_directory_eq h (hreadable [] d (.inl ⟨rfl, rfl⟩) h.directory), Option.map_some,
      current_entries_eq, listing, List.map_flatMap, List.flatMap_map]
    refine congrArg some (List.flatMap_congr fun entry _ => ?_)
    rw [dif_neg hlast, listing]
    simp [relative_path_singleton]
  | succ depth ih =>
    have hmore : options.max_depth > 1 ∧ (current_depth : ℤ) < options.max_depth - 1 := by omega
    rw [zusf_collect_directory_entries_recursive,
      read_directory_eq h (hreadable [] d (.inl ⟨rfl, rfl⟩) h.directory), Option.map_some,
      current_entries_eq, listing, List.map_flatMap, List.flatMap_map]
    refine congrArg some (List.flatMap_congr fun entry hmem => ?_)
    obtain ⟨n, c⟩ := entry
    obtain ⟨hentry, hvisible⟩ := mem_sorted_entries.mp hmem
    have hd := hsearch.self hentry hvisible
    have hlstat := @lstat_join cs fs dir_path d left [n] h (List.cons_ne_nil _ _)
    rw [relative_path_singleton, List.map_singleton,
      walk_name (enter_name h.directory hd hentry), Option.map_some] at hlstat
    rw [dif_pos hmore]
    dsimp only
    rw [hlstat, List.map_cons, relative_path_singleton, Option.any_some]
    congr 1
    by_cases hkind : fs.kind c = .directory
    · rw [if_pos (decide_eq_true hkind), if_pos hkind,
        ih (leads_join h hd hentry hkind) (by omega) (hreadable.entry hentry hkind)
          (hsearch.entry hentry hvisible hkind)]
      dsimp only
      rw [List.map_map, List.map_map]
      refine List.map_congr_left fun below hbelow => ?_
      exact (relative_path_cons n (mem_listing.mp hbelow).2.1.ne_nil).symm
    · rw [if_neg (by simpa using hkind), if_neg hkind, List.map_nil]

/-! The entries, looked up once more. -/

theorem searchable_iff {depth : ℕ} (hdepth : options.max_depth = depth) :
    Searchable fs options d ↔ SearchableTo fs options depth d := by
  constructor
  · intro h names e n c hunder hbelow hlength hall
    exact h names e n c hunder ⟨hbelow, by rw [hdepth]; exact_mod_cast hlength, hall⟩
  · intro h names e n c hunder hlisted
    obtain ⟨hbelow, hlength, hall⟩ := hlisted
    exact h names e n c hunder hbelow (by rw [hdepth] at hlength; exact_mod_cast hlength) hall

/-! The parent. -/

theorem parent_eq_self (hlt : d < fs.next) (hdirectory : fs.kind d = .directory) :
    fs.parent d = d ↔ d = fs.root := by
  constructor
  · intro hparent
    by_contra hroot
    have hdepth := fs.depth_parent d hlt hdirectory hroot
    rw [hparent] at hdepth
    omega
  · rintro rfl
    exact fs.parent_root

/-- No directory is in one that it holds. -/
theorem parent_parent_eq_self (hlt : e < fs.next) (hdirectory : fs.kind e = .directory) :
    fs.parent (fs.parent e) = e ↔ e = fs.root := by
  constructor
  · intro hparent
    by_contra hroot
    have hdepth := fs.depth_parent e hlt hdirectory hroot
    have hparent_root : fs.parent e ≠ fs.root := by
      intro h
      rw [h, fs.parent_root] at hparent
      exact hroot hparent.symm
    have hdepth' := fs.depth_parent (fs.parent e) (fs.parent_lt e hlt)
      (fs.parent_directory e hlt hdirectory) hparent_root
    rw [hparent] at hdepth'
    omega
  · rintro rfl
    rw [fs.parent_root, fs.parent_root]

theorem last_name_append {before name : Bytes} (hname : cs.code '/' ∉ name) :
    last_name cs (before ++ cs.code '/' :: name) = name := by
  have hall : ∀ c ∈ name.reverse, decide (c ≠ cs.code '/') = true := by
    intro c hc
    exact decide_eq_true fun heq => hname (heq ▸ List.mem_reverse.mp hc)
  rw [last_name, List.rtakeWhile, List.reverse_append, List.reverse_cons, List.append_assoc,
    List.takeWhile_append_of_pos hall]
  simp

/-- The parent is shown with what the path leads to up to its last slash. -/
theorem holder_eq (h : Leads fs file d left) (hslash : cs.code '/' ∈ file) :
    ∃ e before, holder fs file = some e ∧ fs.stat (shown_parent cs file) = some e ∧
      e < fs.next ∧ fs.walk fs.searchable before true e
        [part (cs.code '/') (cs.code '.') (last_name cs file)] = some ⟨left, d⟩ := by
  obtain ⟨before, name, rfl, hname⟩ := exists_last_slash hslash
  have hpath : file_path cs (before ++ cs.code '/' :: name) =
      ⟨(file_path cs (before ++ [cs.code '/'])).absolute,
        (file_path cs before).parts ++ (file_path cs name).parts⟩ := path_append
  have hparts : (file_path cs name).parts = [part (cs.code '/') (cs.code '.') name] :=
    path_slash_free hname
  have hreach := h.reach
  rw [hpath, FileSystem.reach] at hreach
  dsimp only at hreach
  rw [hparts, walk_append (List.cons_ne_nil _ _)] at hreach
  obtain ⟨⟨other, e⟩, harrival, hlast⟩ := Option.bind_eq_some_iff.mp hreach
  have hparent : parent_path cs (before ++ cs.code '/' :: name) = before :=
    before_last_append hname
  refine ⟨e, other, ?_, ?_, walk_lt (start_lt _) harrival, ?_⟩
  · rw [holder, hparent, hpath, FileSystem.reaches, FileSystem.reach]
    exact congrArg (Option.map Arrival.object) harrival
  · rw [shown_parent, if_pos hslash, hparent]
    by_cases hbefore : before = []
    · subst hbefore
      have hroot : (file_path cs ([] ++ [cs.code '/'])).absolute = true := by
        simp [file_path, path]
      rw [hroot, if_pos rfl, file_path, path_slash_free List.not_mem_nil, part_nil] at harrival
      rw [(Arrival.mk.inj (walk_nothing.mp harrival).2).2]
      exact stat_root
    · have habsolute : (file_path cs (before ++ [cs.code '/'])).absolute =
          (file_path cs before).absolute := by
        rw [file_path, path, file_path, path, List.head?_append_of_ne_nil _ hbefore]
      rw [if_neg hbefore, FileSystem.stat, FileSystem.resolve, if_neg hbefore, FileSystem.reach,
        ← habsolute, harrival]
      rfl
  · rw [last_name_append hname]
    exact hlast

/-- Behind the last slash: the directory itself, its parent, or a name. -/
theorem part_cases {name : Bytes} (hname : cs.code '/' ∉ name) :
    ((name = [] ∨ name = [cs.code '.']) ∧
        (part (cs.code '/') (cs.code '.') name = .nothing ∨
          part (cs.code '/') (cs.code '.') name = .dot)) ∨
      (name = [cs.code '.', cs.code '.'] ∧ part (cs.code '/') (cs.code '.') name = .dotdot) ∨
      ∃ n : FileName cs, name = n.val ∧ part (cs.code '/') (cs.code '.') name = .name n := by
  by_cases hplain : Plain (cs.code '/') (cs.code '.') name
  · exact .inr (.inr ⟨⟨name, hplain⟩, rfl, part_name ⟨name, hplain⟩⟩)
  · by_cases hnil : name = []
    · exact .inl ⟨.inl hnil, .inl (hnil ▸ part_nil)⟩
    · rw [part, dif_neg hplain]
      by_cases hdot : name = [cs.code '.']
      · exact .inl ⟨.inr hdot, .inr (if_pos hdot)⟩
      · by_cases hdotdot : name = [cs.code '.', cs.code '.']
        · exact .inr (.inl ⟨hdotdot, by rw [if_neg hdot, if_pos hdotdot]⟩)
        · exact absurd ⟨hname, hnil, hdot, hdotdot⟩ hplain

/-- One step to a directory, where no link is on the way. -/
theorem step_of_walk {other : ℕ} {p : Component (FileName cs)}
    (h : fs.walk fs.searchable other true e [p] = some ⟨left, d⟩) :
    ∃ c, fs.kind e = .directory ∧ fs.step e p = some c ∧ (fs.kind c = .directory → c = d) := by
  rw [walk_cons] at h
  obtain ⟨c, henter, hrest⟩ := Option.bind_eq_some_iff.mp h
  obtain ⟨hkind, -, hstep⟩ := enter_eq_some.mp henter
  refine ⟨c, hkind, hstep, fun hc => ?_⟩
  rw [hc] at hrest
  dsimp only at hrest
  rw [walk_nil] at hrest
  exact (Arrival.mk.inj (Option.some.inj hrest)).2

theorem slash_notMem_last_name : cs.code '/' ∉ last_name cs file := by
  intro hmem
  have hall := List.mem_rtakeWhile_imp hmem
  simp at hall

theorem shown_parent_eq (h : Leads fs file d left) :
    ∃ e, fs.stat (shown_parent cs file) = some e ∧ (e = fs.parent d ↔ NamesParent fs file d) := by
  by_cases hslash : cs.code '/' ∈ file
  · obtain ⟨e, other, hholder, hstat, hlt, hwalk⟩ := holder_eq h hslash
    refine ⟨e, hstat, ?_⟩
    have hplace : NamesParent fs file d ↔
        ((last_name cs file = [] ∨ last_name cs file = [cs.code '.']) → d = fs.root) ∧
        (last_name cs file = [cs.code '.', cs.code '.'] → e = fs.root) ∧
        (∀ n, last_name cs file = n.val →
          (∀ c, fs.lookup e n = some c → fs.kind c ≠ .directory) → fs.parent d = e) := by
      constructor
      · intro hnames
        exact ⟨hnames.same hslash,
          fun hup => Option.some.inj (hholder.symm.trans (hnames.up hslash hup)),
          fun n hn hlink => hnames.link hslash n e hn hholder hlink⟩
      · rintro ⟨hsame, hup, hlink⟩
        exact ⟨fun hbare => absurd hslash hbare, fun _ => hsame,
          fun _ hlast => by rw [hholder, hup hlast],
          fun _ n i hn hi hall => by
            obtain rfl : e = i := Option.some.inj (hholder.symm.trans hi)
            exact hlink n hn hall⟩
    rw [hplace]
    obtain ⟨c, hkind, hstep, hd⟩ := step_of_walk hwalk
    rcases part_cases (@slash_notMem_last_name cs file) with
      ⟨hlast, hpart⟩ | ⟨hlast, hpart⟩ | ⟨n, hlast, hpart⟩
    · have hstay : fs.step e (part (cs.code '/') (cs.code '.') (last_name cs file)) = some e := by
        rcases hpart with hpart | hpart <;> rw [hpart] <;> rfl
      obtain rfl : e = c := Option.some.inj (hstay.symm.trans hstep)
      rw [hd hkind, eq_comm, parent_eq_self h.lt h.directory]
      have hdotdot : last_name cs file ≠ [cs.code '.', cs.code '.'] := by
        rcases hlast with hlast | hlast <;> simp [hlast]
      have hname : ∀ n : FileName cs, last_name cs file ≠ n.val := by
        intro n hn
        rw [hn] at hlast
        exact hlast.elim n.property.ne_nil n.property.ne_dot
      exact ⟨fun hroot => ⟨fun _ => hroot, fun h => absurd h hdotdot,
        fun n hn => absurd hn (hname n)⟩, fun hall => hall.1 hlast⟩
    · rw [hpart] at hstep
      obtain rfl : fs.parent e = c := Option.some.inj hstep
      rw [← hd (fs.parent_directory e hlt hkind), eq_comm, parent_parent_eq_self hlt hkind, hlast]
      constructor
      · intro hroot
        refine ⟨fun h => absurd h (by simp), fun _ => hroot, fun n hn => ?_⟩
        exact absurd hn.symm n.property.ne_dotdot
      · exact fun hall => hall.2.1 rfl
    · rw [hpart] at hstep
      have hentry : fs.lookup e n = some c := hstep
      rw [hlast]
      have hnotsame : ¬ (n.val = [] ∨ n.val = [cs.code '.']) :=
        not_or.mpr ⟨n.property.ne_nil, n.property.ne_dot⟩
      by_cases hc : fs.kind c = .directory
      · have hparent := (fs.parent_of_entry e n c (lookup_eq_some.mp hentry) hc).2
        rw [← hd hc, hparent]
        refine iff_of_true rfl ⟨fun h => absurd h hnotsame,
          fun h => absurd h n.property.ne_dotdot, fun m hm hall => absurd hc ?_⟩
        obtain rfl : n = m := Subtype.ext hm
        exact hall c hentry
      · constructor
        · intro hparent
          exact ⟨fun h => absurd h hnotsame, fun h => absurd h n.property.ne_dotdot,
            fun _ _ _ => hparent.symm⟩
        · rintro ⟨-, -, hlink⟩
          refine (hlink n rfl fun i hi => ?_).symm
          obtain rfl : c = i := Option.some.inj (hentry.symm.trans hi)
          exact hc
  · have hparent : shown_parent cs file = file := by
      rw [shown_parent, if_neg hslash, if_neg h.ne_nil]
    refine ⟨d, ?_, ?_⟩
    · rw [hparent]
      exact (stat_eq_some h.directory).mpr ⟨left, h⟩
    · rw [eq_comm, parent_eq_self h.lt h.directory]
      constructor
      · exact fun hroot => ⟨fun _ => hroot, fun hmem => absurd hmem hslash,
          fun hmem => absurd hmem hslash, fun hmem => absurd hmem hslash⟩
      · exact fun hnames => hnames.bare hslash

/-! The listing. -/

theorem list_directory (hstat : fs.stat file = some d) (hdirectory : fs.kind d = .directory)
    (hdepth : 1 ≤ options.max_depth) (hlength : file.length ≤ PATH_MAX) :
    zusf_list_uss_file_path fs options file =
      (zusf_collect_directory_entries_recursive fs options file 0).bind fun entry_names =>
        (entry_names.mapM fun name =>
          (fs.lstat (zusf_join_path cs file name)).map fun child_stats => (name, child_stats)).map
            fun entries => (if options.all_files then
              ([cs.code '.'], d) :: ((fs.stat (shown_parent cs file)).map fun parent_stats =>
                ([cs.code '.', cs.code '.'], parent_stats)).toList else []) ++ entries := by
  have hne : file ≠ [] := by
    rintro rfl
    cases hstat
  have hvalid : zusf_is_valid_path file = true := by simp [zusf_is_valid_path, hne, hlength]
  rw [zusf_list_uss_file_path, if_neg (by simp [hvalid]), hstat, Option.bind_some, hdirectory,
    if_neg (by simp), if_neg (by simp), if_neg (by omega)]

/-- A directory of readable directories is listed as it should be where its path is no longer than
the limit, what holds the listed entries may be searched, and its path is written so that the parent
is its text up to the last slash. -/
theorem lists_directory_iff (hstat : fs.stat file = some d) (hdirectory : fs.kind d = .directory)
    (hreadable : Readable fs d) (hdepth : 1 ≤ options.max_depth) :
    (∃ output, zusf_list_uss_file_path fs options file = some output ∧
        Lists fs options d output) ↔
      file.length ≤ PATH_MAX ∧ Searchable fs options d ∧
        (options.all_files = true → NamesParent fs file d) := by
  obtain ⟨left, hleads⟩ := (stat_eq_some hdirectory).mp hstat
  obtain ⟨e, hparent, hnames⟩ := shown_parent_eq hleads
  obtain ⟨depth, hmax⟩ : ∃ depth : ℕ, options.max_depth = depth + 1 :=
    ⟨(options.max_depth - 1).toNat, by omega⟩
  constructor
  · rintro ⟨output, hlist, listed, hlisted, -, houtput⟩
    have hlength : file.length ≤ PATH_MAX := by
      by_contra hlong
      have hinvalid : zusf_is_valid_path file = false := by simp [zusf_is_valid_path, hlong]
      rw [zusf_list_uss_file_path, if_pos hinvalid] at hlist
      cases hlist
    rw [list_directory hstat hdirectory hdepth hlength, hparent] at hlist
    obtain ⟨entry_names, -, hlist⟩ := Option.bind_eq_some_iff.mp hlist
    obtain ⟨entries, hentries, hlist⟩ := Option.map_eq_some_iff.mp hlist
    rw [← hlist] at houtput
    have hsplit : (options.all_files = true → e = fs.parent d) ∧
        entries = listed.map fun entry => (relative_path entry.1, entry.2) := by
      cases hall : options.all_files with
      | false => simpa [hall] using houtput
      | true => simpa [hall] using houtput
    refine ⟨hlength, fun names i n c hunder hn => ?_, fun hall => hnames.mp (hsplit.1 hall)⟩
    have hmem : (relative_path (names ++ [n]), c) ∈ entries := by
      rw [hsplit.2]
      exact List.mem_map.mpr ⟨(names ++ [n], c), (hlisted _ _).mpr hn, rfl⟩
    obtain ⟨name, -, hname⟩ := Traversals.mem_of_mapM hentries _ hmem
    obtain ⟨child, hlstat, hchild⟩ := Option.map_eq_some_iff.mp hname
    rw [(Prod.mk.inj hchild).1, lstat_join hleads (by simp)] at hlstat
    obtain ⟨arrival, hwalk, -⟩ := Option.map_eq_some_iff.mp hlstat
    exact searchable_of_walk hwalk hunder (below_of_under hn.1 hunder).1
  · rintro ⟨hlength, hsearch, hnamed⟩
    have hto : SearchableTo fs options (depth + 1) d :=
      (searchable_iff (by rw [hmax]; norm_cast)).mp hsearch
    have hcollect : zusf_collect_directory_entries_recursive fs options file 0 =
        some ((fs.listing (visible options) (depth + 1) d).map fun entry =>
          relative_path entry.1) :=
      collect_eq hleads (by rw [hmax]; simp) hreadable hto
    have hsecond : ((fs.listing (visible options) (depth + 1) d).map fun entry =>
          relative_path entry.1).mapM (fun name =>
            (fs.lstat (zusf_join_path cs file name)).map fun child_stats => (name, child_stats)) =
        some ((fs.listing (visible options) (depth + 1) d).map fun entry =>
          (relative_path entry.1, entry.2)) := by
      refine Traversals.mapM_map fun entry hentry => ?_
      obtain ⟨hshort, hbelow, hall⟩ := mem_listing.mp hentry
      have hwalk := @walk_below cs fs d entry.2 left entry.1 hbelow ?_
      · rw [lstat_join hleads hbelow.ne_nil, hwalk]
        rfl
      · intro front i m more hsplit hunder
        rw [hsplit] at hbelow hshort hall
        obtain ⟨j, hj⟩ : ∃ j, (m, j) ∈ fs.entries i := by
          rcases below_cons.mp (below_of_under hbelow hunder).2 with ⟨-, hj⟩ | ⟨j, hj, -⟩
          · exact ⟨_, hj⟩
          · exact ⟨j, hj⟩
        refine hto front i m j hunder (below_concat hunder hj) ?_ fun k hk => hall k ?_
        · rw [List.length_append, List.length_cons] at hshort ⊢
          simp only [List.length_nil]
          omega
        · rw [List.mem_append, List.mem_singleton] at hk
          rw [List.mem_append, List.mem_cons]
          exact hk.imp_right .inl
    refine ⟨_, ?_, fs.listing (visible options) (depth + 1) d, ?_, listing_lt _ _, rfl⟩
    · rw [list_directory hstat hdirectory hdepth hlength, hcollect, Option.bind_some, hsecond,
        Option.map_some, hparent]
      cases hall : options.all_files with
      | false => simp
      | true => simp [hnames.mpr (hnamed hall)]
    · intro names c
      rw [mem_listing, Listed, hmax]
      constructor
      · rintro ⟨hshort, hbelow, hall⟩
        exact ⟨hbelow, by exact_mod_cast hshort, hall⟩
      · rintro ⟨hbelow, hshort, hall⟩
        exact ⟨by exact_mod_cast hshort, hbelow, hall⟩

def name_a : FileName ascii := ⟨ascii.str "a", by decide +kernel⟩

theorem home_parent_root : (fun _ : ℕ => (0 : ℕ)) 0 = 0 := rfl

theorem home_directory : (fun _ : ℕ => (.directory : Kind (FileName ascii))) 0 = .directory := rfl

/-- A root directory with the empty directory `a`, which is the working directory. -/
def home : FileSystem ascii where
  kind _ := .directory
  entries d := if d = 0 then [(name_a, 1)] else []
  parent _ := 0
  depth d := if d = 0 then 0 else 1
  root := 0
  cwd := 1
  next := 2
  names_nodup d := by split_ifs <;> simp
  directory_of_entry _ _ _ _ := rfl
  lt_of_entry d n c h := by
    split_ifs at h with hd
    · simp at h
      omega
    · cases h
  parent_of_entry d n c h _ := by
    split_ifs at h with hd
    · simp at h
      omega
    · cases h
  parent_lt _ _ := Nat.zero_lt_two
  parent_directory _ _ _ := rfl
  depth_parent d _ _ hroot := by rw [if_neg hroot, if_pos rfl]
  parent_root := home_parent_root
  root_directory := home_directory
  cwd_directory := home_directory
  root_lt := Nat.zero_lt_two
  cwd_lt := Nat.one_lt_two
  mode _ := 0o755
  permission_class _ := .owner
  superuser := false
  umask := 0o022
  symloop_max := 8

/-- `list /a --all` -/
theorem lists_directory_a :
    (∃ output, zusf_list_uss_file_path home ⟨true, 1⟩ (ascii.str "/a") = some output ∧
        Lists home ⟨true, 1⟩ 1 output) ↔
      (ascii.str "/a").length ≤ PATH_MAX ∧ Searchable home ⟨true, 1⟩ 1 ∧
        (true = true → NamesParent home (ascii.str "/a") 1) :=
  lists_directory_iff (by decide +kernel) rfl
    (fun _ _ _ _ => (by decide : (false || Nat.testBit 0o755 (6 + 2)) = true)) (by decide)

/-- `list . --all`, where the parent is shown with what belongs to the directory itself. -/
theorem parent_shown_as_self :
    ¬ ∃ output, zusf_list_uss_file_path home ⟨true, 1⟩ (ascii.str ".") = some output ∧
      Lists home ⟨true, 1⟩ 1 output := by
  rintro ⟨output, hlist, listed, -, -, houtput⟩
  have hstat : home.stat (ascii.str ".") = some 1 := by decide +kernel
  have hparent : home.stat (shown_parent ascii (ascii.str ".")) = some 1 := by decide +kernel
  rw [list_directory hstat rfl (by decide) (by decide +kernel), hparent] at hlist
  obtain ⟨entry_names, -, hlist⟩ := Option.bind_eq_some_iff.mp hlist
  obtain ⟨entries, -, hlist⟩ := Option.map_eq_some_iff.mp hlist
  rw [← hlist] at houtput
  have hroot : home.parent 1 = 0 := rfl
  simp [hroot] at houtput

end Zowex.zusf
