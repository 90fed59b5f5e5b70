import Zowex.Proofs.UssListing
import Zowex.Spec.UssRemoval

/-! A removal takes nothing away but the item and what is in it, and it says that it has succeeded
only where all of that is gone. -/

namespace Zowex.zusf

open Inodes Inodes.Files PathTexts

variable {cs : Charset} {fs fs' fs'' : FileSystem cs} {refuses : ℕ → Bool} {file : Bytes}
  {d e i c left steps : ℕ} {n m : FileName cs} {recursive : Bool} {rc : ℤ}
  {gone gone' : ℕ → FileName cs → Prop} {result : FileSystem cs × ℤ}

/-! Names taken away. -/

theorem Lost.refl (fs : FileSystem cs) (gone : ℕ → FileName cs → Prop) : Lost fs fs gone where
  shrinks := .refl _ _
  kept := rfl

theorem Lost.mono (h : Lost fs fs' gone)
    (hgone : ∀ e m, fs.kind e = .directory → gone e m → gone' e m) : Lost fs fs' gone' where
  shrinks := h.shrinks.mono hgone
  kept := h.kept

theorem Lost.trans (h : Lost fs fs' gone) (h' : Lost fs' fs'' gone) : Lost fs fs'' gone where
  shrinks := h.shrinks.trans h'.shrinks
  kept := by
    have hkept := h'.kept
    rw [h.kept] at hkept
    exact hkept

theorem lost_erase (hgone : gone d n) : Lost fs (fs.erase d n) gone where
  shrinks := shrinks_erase hgone
  kept := rfl

theorem Lost.grows (h : Lost fs fs' gone) :
    Grows fs'.toFiles fs.toFiles fs'.searchable fs.searchable := by
  apply h.shrinks.grows
  rw [h.kept]
  rfl

theorem Lost.limit (h : Lost fs fs' gone) : fs.symloop_max = fs'.symloop_max := by
  rw [h.kept]

theorem Lost.lstat {text : Bytes} (h : Lost fs fs' gone) (hstat : fs'.lstat text = some i) :
    fs.lstat text = some i := by
  rw [FileSystem.lstat, FileSystem.resolve] at hstat ⊢
  split_ifs at hstat ⊢
  obtain ⟨arrival, harrival, rfl⟩ := Option.map_eq_some_iff.mp hstat
  exact Option.map_eq_some_iff.mpr ⟨arrival, Grows.reach h.grows h.limit harrival, rfl⟩

theorem Lost.place {text : Bytes} (h : Lost fs fs' gone) (hplace : fs'.place text = some (d, n)) :
    fs.place text = some (d, n) := by
  rw [FileSystem.place] at hplace ⊢
  obtain ⟨m, hm, hplace⟩ := Option.bind_eq_some_iff.mp hplace
  obtain ⟨arrival, harrival, hsame⟩ := Option.map_eq_some_iff.mp hplace
  rw [hm, Option.bind_some]
  exact Option.map_eq_some_iff.mpr ⟨arrival, Grows.reach h.grows h.limit harrival, hsame⟩

theorem Lost.lookup (h : Lost fs fs' gone) (hlookup : fs'.lookup d n = some c) :
    fs.lookup d n = some c := h.grows.lookup d n c hlookup

/-! What a path names, and where. -/

/-- A directory found without following a link at the end is found when it would be followed. -/
theorem leads_of_lstat (hstat : fs.lstat file = some i) (hdirectory : fs.kind i = .directory) :
    ∃ left, Leads fs file i left := by
  rw [FileSystem.lstat, FileSystem.resolve] at hstat
  split_ifs at hstat with hnil
  obtain ⟨⟨left, object⟩, hreach, rfl⟩ := Option.map_eq_some_iff.mp hstat
  refine ⟨left, hnil, walk_follow hreach fun target hlink => ?_, hdirectory⟩
  rw [hdirectory] at hlink
  cases hlink

theorem parts_split (hplace : fs.place file = some (d, n)) : ∃ front k other,
    (file_path cs file).parts = front ++ .name n :: List.replicate k .nothing ∧
      fs.reach true (file_path cs file).absolute front = some ⟨other, d⟩ := by
  rw [FileSystem.place] at hplace
  obtain ⟨m, hm, hplace⟩ := Option.bind_eq_some_iff.mp hplace
  obtain ⟨⟨other, object⟩, harrival, hsame⟩ := Option.map_eq_some_iff.mp hplace
  obtain ⟨rfl, rfl⟩ := Prod.mk.inj hsame
  obtain ⟨part, hpart, hname⟩ := Option.bind_eq_some_iff.mp hm
  obtain ⟨front, hfront⟩ := List.getLast?_eq_some_iff.mp hpart
  rw [hfront, List.dropLast_concat] at harrival
  have hnothing : (file_path cs file).parts.rtakeWhile (· = .nothing) =
      List.replicate ((file_path cs file).parts.rtakeWhile (· = .nothing)).length .nothing :=
    List.eq_replicate_length.mpr fun x hx => by simpa using List.mem_rtakeWhile_imp hx
  have hsplit := @List.rdropWhile_append_rtakeWhile _ (· = .nothing) (file_path cs file).parts
  have hlast : part = .name m := by
    cases part with
    | nothing | dot | dotdot => cases hname
    | name k => exact congrArg _ (Option.some.inj hname)
  rw [hfront, hlast, hnothing, List.append_assoc, List.singleton_append] at hsplit
  exact ⟨front, _, other, hsplit.symm, harrival⟩

/-- The object of the name is what is found, or a link with slashes behind it to a directory. -/
theorem lookup_place (hplace : fs.place file = some (d, n)) (hlookup : fs.lookup d n = some c)
    (hstat : fs.lstat file = some i) :
    c = i ∨ (fs.kind i = .directory ∧ fs.kind c ≠ .directory) := by
  obtain ⟨front, k, other, hparts, hfront⟩ := parts_split hplace
  rw [FileSystem.lstat, FileSystem.resolve] at hstat
  split_ifs at hstat
  obtain ⟨arrival, hreach, rfl⟩ := Option.map_eq_some_iff.mp hstat
  rw [FileSystem.reach] at hreach hfront
  rw [hparts, walk_append (List.cons_ne_nil _ _), hfront, Option.bind_some, walk_cons] at hreach
  obtain ⟨x, henter, hrest⟩ := Option.bind_eq_some_iff.mp hreach
  obtain rfl : x = c := Option.some.inj ((enter_eq_some.mp henter).2.2.symm.trans hlookup)
  have hslash : ∀ {start left : ℕ} {before : List (Component (FileName cs))}, k ≠ 0 →
      fs.walk fs.searchable left false start (before ++ List.replicate k .nothing) =
        some arrival → fs.kind arrival.object = .directory := by
    intro start left before hk hwalk
    obtain ⟨j, rfl⟩ := Nat.exists_eq_succ_of_ne_zero hk
    rw [List.replicate_succ', ← List.append_assoc] at hwalk
    exact walk_slash hwalk
  by_cases hk : k = 0
  · subst hk
    left
    cases hx : fs.kind x with
    | directory | file | other =>
      simp only [hx, List.replicate_zero, walk_nil, Option.some.injEq] at hrest
      rw [← hrest]
    | link target =>
      simp only [hx, List.replicate_zero, and_self, if_true, Option.some.injEq] at hrest
      rw [← hrest]
  · cases hx : fs.kind x with
    | directory =>
      left
      simp only [hx] at hrest
      rw [walk_slashes hx, Option.some.injEq] at hrest
      rw [← hrest]
    | file | other =>
      simp only [hx] at hrest
      obtain ⟨j, rfl⟩ := Nat.exists_eq_succ_of_ne_zero hk
      rw [List.replicate_succ, walk_cons] at hrest
      obtain ⟨y, hy, -⟩ := Option.bind_eq_some_iff.mp hrest
      rw [(enter_eq_some.mp hy).1] at hx
      cases hx
    | link target =>
      right
      simp only [hx] at hrest
      rw [if_neg (by simp [hk])] at hrest
      refine ⟨?_, by simp⟩
      obtain ⟨more, hmore⟩ := Nat.exists_eq_succ_of_ne_zero
        (show other ≠ 0 from fun hzero => by
          rw [hzero] at hrest
          cases hrest)
      rw [hmore] at hrest
      exact hslash hk hrest

/-! The entries of a directory by their paths. -/

theorem join_eq (cs : Charset) (dir_path : Bytes) : ∃ before, ∀ more,
    zusf_join_path cs dir_path more = before ++ cs.code '/' :: more := by
  by_cases hlast : dir_path.getLast? = some (cs.code '/')
  · obtain ⟨before, hbefore⟩ := List.getLast?_eq_some_iff.mp hlast
    refine ⟨before, fun more => ?_⟩
    rw [zusf_join_path, if_pos hlast, hbefore, List.append_assoc, List.singleton_append]
  · refine ⟨dir_path, fun more => ?_⟩
    rw [zusf_join_path, if_neg hlast, List.append_assoc, List.singleton_append]

theorem lstat_child (h : Leads fs file i left)
    (hstat : fs.lstat (zusf_join_path cs file n.val) = some c) : (n, c) ∈ fs.entries i := by
  rw [← relative_path_singleton n, lstat_join h (List.cons_ne_nil _ _)] at hstat
  obtain ⟨arrival, hwalk, rfl⟩ := Option.map_eq_some_iff.mp hstat
  have hcopy := hwalk
  rw [List.map_singleton, walk_cons] at hwalk
  obtain ⟨x, henter, -⟩ := Option.bind_eq_some_iff.mp hwalk
  rw [List.map_singleton, walk_name henter] at hcopy
  rw [← Option.some.inj hcopy]
  exact lookup_eq_some.mp (enter_eq_some.mp henter).2.2

theorem place_child (h : Leads fs file i left) (n : FileName cs) :
    fs.place (zusf_join_path cs file n.val) = some (i, n) := by
  obtain ⟨before, hbefore⟩ := join_eq cs file
  have hreach := @reach_join cs fs file i left h true [] (by simp [file_path, path])
  have hparts : ∀ more, (file_path cs (before ++ cs.code '/' :: more)) =
      ⟨(file_path cs (before ++ [cs.code '/'])).absolute,
        (file_path cs before).parts ++ (file_path cs more).parts⟩ := fun more => path_append
  have hnil : (file_path cs []).parts = [.nothing] := by
    rw [file_path, path_slash_free List.not_mem_nil, part_nil]
  have hname : (file_path cs n.val).parts = [.name n] := by
    rw [file_path, path_slash_free n.property.slash, part_name]
  rw [hbefore, hparts, hnil, walk_nothing.mpr ⟨h.directory, rfl⟩, FileSystem.reach] at hreach
  dsimp only at hreach
  rw [walk_append (List.cons_ne_nil _ _)] at hreach
  obtain ⟨arrival, harrival, hlast⟩ := Option.bind_eq_some_iff.mp hreach
  have hobject := (walk_nothing.mp hlast).2
  rw [Arrival.mk.injEq] at hobject
  rw [FileSystem.place, hbefore, hparts, hname]
  dsimp only
  rw [List.rdropWhile_concat_neg _ _ _ (by simp), List.getLast?_concat, List.dropLast_concat]
  exact Option.map_eq_some_iff.mpr ⟨arrival, harrival, by rw [hobject.2]⟩

/-! One entry after the other. -/

/-- The loop over the entries of a directory, after these names. What is not as it was is empty. -/
structure Emptying (fs fs' : FileSystem cs) (i : ℕ) (names : List Bytes) : Prop where
  lost : Lost fs fs' fun e _ => fs.Inside i e
  part : ∀ e, fs.Inside i e → e ≠ i → fs.Intact fs'.toFiles e ∨ fs.Cleared fs'.toFiles e
  cleared : ∀ n c, (n, c) ∈ fs.entries i → n.val ∈ names → fs.kind c = .directory →
    fs.Cleared fs'.toFiles c

theorem Emptying.start (fs : FileSystem cs) (i : ℕ) : Emptying fs fs i [] where
  lost := .refl _ _
  part _ _ _ := .inl fun _ _ hmem => hmem
  cleared _ _ _ hmem := absurd hmem List.not_mem_nil

variable {names : List Bytes}

/-- What the deletion of an entry may take away. -/
theorem removable_child (hlost : Lost fs fs' fun e _ => fs.Inside i e) (hleads : Leads fs file i left)
    (hstat : fs'.lstat (zusf_join_path cs file n.val) = some c)
    (hremovable : Removable fs' (zusf_join_path cs file n.val) (fs'.kind c = .directory) e m) :
    (e = i ∧ m = n) ∨ (fs.Child i c ∧ fs'.Inside c e) := by
  have hentry := lstat_child hleads (hlost.lstat hstat)
  have hkind := congrFun hlost.shrinks.kind c
  obtain ⟨x, hx, hremovable⟩ := hremovable
  obtain rfl : c = x := Option.some.inj (hstat.symm.trans hx)
  rcases hremovable with ⟨hplace, -⟩ | ⟨hrecursive, hinside⟩
  · have hsame := (hlost.place hplace).symm.trans (place_child hleads n)
    exact .inl (Prod.mk.inj (Option.some.inj hsame))
  · exact .inr ⟨⟨hkind ▸ of_decide_eq_true hrecursive, n, hentry⟩, hinside⟩

theorem Lost.child (hlost : Lost fs fs' fun e _ => fs.Inside i e) (hleads : Leads fs file i left)
    (hstat : fs'.lstat (zusf_join_path cs file n.val) = some c)
    (hdeletes : Deletes fs' fs'' (zusf_join_path cs file n.val) (fs'.kind c = .directory) rc) :
    Lost fs fs'' fun e _ => fs.Inside i e := by
  apply hlost.trans
  apply hdeletes.lost.mono
  intro e m _ hremovable
  rcases removable_child hlost hleads hstat hremovable with ⟨rfl, -⟩ | ⟨hchild, hinside⟩
  · exact .refl
  · exact .head hchild (hlost.shrinks.inside hinside)

/-- The deletion of an entry touches no other entry, nor what is in it. -/
theorem Emptying.step (h : Emptying fs fs' i names) (hleads : Leads fs file i left)
    (hstat : fs'.lstat (zusf_join_path cs file n.val) = some c)
    (hdeletes : Deletes fs' fs'' (zusf_join_path cs file n.val) (fs'.kind c = .directory) 0) :
    Emptying fs fs'' i (n.val :: names) := by
  have hentry : (n, c) ∈ fs.entries i := lstat_child hleads (h.lost.lstat hstat)
  obtain ⟨-, -, x, hx, -, -, -, hempty⟩ := hdeletes.removed rfl
  obtain rfl : c = x := Option.some.inj (hstat.symm.trans hx)
  have hcleared : fs.kind c = .directory → fs.Cleared fs''.toFiles c := by
    intro hdirectory
    have hchild : fs.Child i c := ⟨hdirectory, n, hentry⟩
    apply cleared_of_left _ h.lost.shrinks.kind hdeletes.lost.shrinks hempty
    exact fun e he => h.part e (.head hchild he) (hchild.ne he)
  constructor
  · exact h.lost.child hleads hstat hdeletes
  · intro e he hne
    by_cases hin : fs.kind c = .directory ∧ fs.Inside c e
    · exact .inr fun x hx => hcleared hin.1 x (hin.2.trans hx)
    · apply (h.part e he hne).imp _ fun hold => hold.shrinks hdeletes.lost.shrinks
      intro hintact m x hmem
      apply hdeletes.lost.shrinks.kept e m x (hintact m x hmem)
      intro hremovable
      rcases removable_child h.lost hleads hstat hremovable with ⟨hsame, -⟩ | ⟨hchild, hinside⟩
      · exact hne hsame
      · exact hin ⟨hchild.1, h.lost.shrinks.inside hinside⟩
  · intro m x hmem hnames hdirectory
    rcases List.mem_cons.mp hnames with hsame | hold
    · obtain rfl : m = n := Subtype.ext hsame
      obtain rfl : c = x := Option.some.inj
        ((lookup_eq_some.mpr hentry).symm.trans (lookup_eq_some.mpr hmem))
      exact hcleared hdirectory
    · exact (h.cleared m x hmem hold hdirectory).shrinks hdeletes.lost.shrinks

/-- What `readdir` gives. -/
def EntryName (cs : Charset) (d_name : Bytes) : Prop :=
  d_name = [cs.code '.'] ∨ d_name = [cs.code '.', cs.code '.'] ∨
    ∃ n : FileName cs, d_name = n.val

variable {delete_item : FileSystem cs → Bytes → Bool → Option (FileSystem cs × ℤ)}
  {d_names : List Bytes}

/-- The loop as a whole. It goes on only as long as each entry is gone. -/
theorem delete_entries_emptying
    (hitem : ∀ {fs file recursive result}, delete_item fs file recursive = some result →
      Deletes fs result.1 file recursive result.2)
    (hleads : Leads fs file i left) (hnames : ∀ d_name ∈ d_names, EntryName cs d_name)
    (h : Emptying fs fs' i names) (hrun : delete_entries delete_item file d_names fs' = some result) :
    Lost fs result.1 (fun e _ => fs.Inside i e) ∧ (result.2 = 0 ∨ result.2 = zjb.RTNCD_FAILURE) ∧
      (result.2 = 0 → ∃ all, Emptying fs result.1 i all ∧
        ∀ m : FileName cs, m.val ∈ d_names ∨ m.val ∈ names → m.val ∈ all) := by
  induction d_names generalizing fs' names with
  | nil =>
    rw [delete_entries, Option.some.injEq] at hrun
    subst hrun
    exact ⟨h.lost, .inl rfl, fun _ => ⟨names, h, fun m hm => hm.resolve_left List.not_mem_nil⟩⟩
  | cons d_name d_names ih =>
    rw [List.forall_mem_cons] at hnames
    rw [delete_entries] at hrun
    by_cases hdots : d_name = [cs.code '.'] ∨ d_name = [cs.code '.', cs.code '.']
    · rw [if_pos hdots] at hrun
      obtain ⟨hlost, hcode, hall⟩ := ih hnames.2 h hrun
      refine ⟨hlost, hcode, fun hrc => ?_⟩
      obtain ⟨all, hemptying, hmem⟩ := hall hrc
      refine ⟨all, hemptying, fun m hm => hmem m (hm.imp_left fun hcons => ?_)⟩
      rcases List.mem_cons.mp hcons with rfl | hrest
      · exact absurd hdots (not_or.mpr ⟨m.property.ne_dot, m.property.ne_dotdot⟩)
      · exact hrest
    · obtain ⟨n, rfl⟩ := (or_assoc.mpr hnames.1).resolve_left hdots
      rw [if_neg hdots] at hrun
      cases hstat : fs'.lstat (zusf_join_path cs file n.val) with
      | none =>
        simp only [hstat, Option.some.injEq] at hrun
        subst hrun
        exact ⟨h.lost, .inr rfl, fun hrc => by cases hrc⟩
      | some c =>
        simp only [hstat] at hrun
        obtain ⟨next, hnext, hrun⟩ := Option.bind_eq_some_iff.mp hrun
        have hdeletes := hitem hnext
        by_cases hrc : next.2 = 0
        · rw [if_neg (not_not.mpr hrc)] at hrun
          rw [hrc] at hdeletes
          obtain ⟨hlost, hcode, hall⟩ := ih hnames.2 (h.step hleads hstat hdeletes) hrun
          refine ⟨hlost, hcode, fun hrc => ?_⟩
          obtain ⟨all, hemptying, hmem⟩ := hall hrc
          refine ⟨all, hemptying, fun m hm => hmem m ?_⟩
          rw [List.mem_cons] at hm ⊢
          tauto
        · rw [if_pos hrc, Option.some.injEq] at hrun
          subst hrun
          exact ⟨h.lost.child hleads hstat hdeletes, hdeletes.code, fun h => absurd h hrc⟩

/-! The item. -/

theorem take_away_cases (refuses allowed : ℕ → Bool) (text : Bytes) :
    fs.take_away refuses allowed text = (fs, -1) ∨
      ∃ d n i, fs.place text = some (d, n) ∧ fs.lookup d n = some i ∧ allowed i = true ∧
        fs.take_away refuses allowed text = (fs.erase d n, 0) := by
  rw [FileSystem.take_away]
  cases hplace : fs.place text with
  | none => exact .inl rfl
  | some place =>
    obtain ⟨d, n⟩ := place
    dsimp only
    cases hlookup : fs.lookup d n with
    | none => exact .inl rfl
    | some i =>
      dsimp only
      split_ifs with hmay
      · exact .inr ⟨d, n, i, rfl, hlookup, hmay.1, rfl⟩
      · exact .inl rfl

theorem entryName_of_read {text : Bytes} (hread : fs.read_directory text = some d_names) :
    ∀ d_name ∈ d_names, EntryName cs d_name := by
  rw [FileSystem.read_directory] at hread
  obtain ⟨x, -, hread⟩ := Option.bind_eq_some_iff.mp hread
  split_ifs at hread
  rw [Option.some.injEq] at hread
  subst hread
  intro d_name hmem
  rcases List.mem_cons.mp hmem with rfl | hmem
  · exact .inl rfl
  rcases List.mem_cons.mp hmem with rfl | hmem
  · exact .inr (.inl rfl)
  obtain ⟨entry, -, rfl⟩ := List.mem_map.mp hmem
  exact .inr (.inr ⟨entry.1, rfl⟩)

theorem mem_of_read (hleads : Leads fs file i left)
    (hread : fs.read_directory file = some d_names) (hentry : (n, c) ∈ fs.entries i) :
    n.val ∈ d_names := by
  rw [FileSystem.read_directory, (stat_eq_some hleads.directory).mpr ⟨left, hleads⟩,
    Option.bind_some] at hread
  split_ifs at hread
  rw [Option.some.injEq] at hread
  subst hread
  exact List.mem_cons_of_mem _ (List.mem_cons_of_mem _
    (List.mem_map_of_mem (f := fun entry : FileName cs × ℕ => entry.1.val) hentry))

/-- What is in an item that is no directory. -/
theorem cleared_of_ne_directory (hkind : fs.kind i ≠ .directory) : fs.Cleared fs'.toFiles i ↔
    fs'.entries i = [] := by
  constructor
  · exact fun h => h i .refl
  · intro hnil e he
    rcases he.cases_head with rfl | ⟨x, ⟨-, n, hentry⟩, -⟩
    · exact hnil
    · exact absurd (fs.directory_of_entry i n x hentry) hkind

theorem failure_ne : zjb.RTNCD_FAILURE ≠ 0 := by decide

/-- The end of a deletion, where the item itself is taken away. -/
theorem deletes_end {allowed : ℕ → Bool} (hstat : fs.lstat file = some i)
    (hrecursive : fs.kind i = .directory → recursive = true)
    (hlost : Lost fs fs' fun e _ => recursive = true ∧ fs.Inside i e)
    (hallowed : ∀ x, allowed x = true → fs.kind i = .directory → fs.kind x = .directory)
    (hcleared : allowed i = true → fs.Cleared fs'.toFiles i) :
    Deletes fs (deleted (fs'.take_away refuses allowed file)).1 file recursive
      (deleted (fs'.take_away refuses allowed file)).2 := by
  have hdirectory : recursive = false → ∀ x, fs.lstat file = some x → fs.kind x ≠ .directory := by
    intro hfalse x hx hkind
    rw [Option.some.inj (hx.symm.trans hstat)] at hkind
    rw [hrecursive hkind] at hfalse
    cases hfalse
  have hbefore : Lost fs fs' (Removable fs file recursive) :=
    hlost.mono fun e m _ hin => ⟨i, hstat, .inr hin⟩
  rcases @take_away_cases cs fs' refuses allowed file with hrc | ⟨d, n, x, hplace, hlookup, hx, hrc⟩
  · rw [hrc, deleted, if_pos (by simp)]
    exact ⟨hbefore, .inr rfl, fun h => (failure_ne h).elim, fun h => (failure_ne h).elim⟩
  · have hx_eq : x = i := by
      rcases lookup_place (hlost.place hplace) (hlost.lookup hlookup) hstat with hsame | ⟨hi, hne⟩
      · exact hsame
      · exact absurd (hallowed x hx hi) hne
    subst hx_eq
    have hgone : Removable fs file recursive d n :=
      ⟨x, hstat, .inl ⟨hlost.place hplace, hlost.lookup hlookup⟩⟩
    have herase : Lost fs' (fs'.erase d n) (Removable fs file recursive) := lost_erase hgone
    rw [hrc, deleted, if_neg (by simp)]
    exact ⟨hbefore.trans herase, .inl rfl,
      fun _ => ⟨d, n, x, hstat, hlost.place hplace, hlost.lookup hlookup, lookup_erase,
        (hcleared hx).shrinks herase.shrinks⟩, fun _ => hdirectory⟩

theorem deletes_unchanged (hnot : rc = zjb.RTNCD_FAILURE) : Deletes fs fs file recursive rc := by
  subst hnot
  exact ⟨.refl _ _, .inr rfl, fun h => (failure_ne h).elim, fun h => (failure_ne h).elim⟩

/-- Whatever a deletion returns. -/
theorem delete_deletes (hrun : zusf_delete_uss_item refuses steps fs file recursive = some result) :
    Deletes fs result.1 file recursive result.2 := by
  induction steps generalizing fs file recursive result with
  | zero => cases hrun
  | succ steps ih =>
    rw [zusf_delete_uss_item] at hrun
    cases hstat : fs.lstat file with
    | none =>
      simp only [hstat, Option.some.injEq] at hrun
      subst hrun
      exact deletes_unchanged rfl
    | some i =>
      simp only [hstat] at hrun
      by_cases hkind : fs.kind i = .directory
      · rw [if_pos hkind] at hrun
        split_ifs at hrun with hrecursive
        · rw [Option.some.injEq] at hrun
          subst hrun
          exact deletes_unchanged rfl
        rw [Bool.not_eq_false] at hrecursive
        cases hread : fs.read_directory file with
        | none =>
          simp only [hread, Option.some.injEq] at hrun
          subst hrun
          exact deletes_unchanged rfl
        | some d_names =>
          simp only [hread] at hrun
          obtain ⟨after, hloop, hrun⟩ := Option.bind_eq_some_iff.mp hrun
          obtain ⟨left, hleads⟩ := leads_of_lstat hstat hkind
          obtain ⟨hlost, hcode, hall⟩ := delete_entries_emptying ih hleads
            (entryName_of_read hread) (Emptying.start fs i) hloop
          by_cases hrc : after.2 = 0
          · rw [if_neg (not_not.mpr hrc), Option.some.injEq] at hrun
            subst hrun
            obtain ⟨all, hemptying, hmem⟩ := hall hrc
            refine deletes_end hstat (fun _ => hrecursive)
              (hlost.mono fun e m _ hin => ⟨hrecursive, hin⟩) (fun x hx _ => ?_) fun hi => ?_
            · rw [Bool.and_eq_true, decide_eq_true_eq, hlost.shrinks.kind] at hx
              exact hx.1
            · rw [Bool.and_eq_true, decide_eq_true_eq, decide_eq_true_eq] at hi
              intro e he
              rcases he.cases_head with rfl | ⟨c, ⟨hchild, n, hentry⟩, hrest⟩
              · exact hi.2
              · exact hemptying.cleared n c hentry
                  (hmem n (.inl (mem_of_read hleads hread hentry))) hchild e hrest
          · rw [if_pos hrc, Option.some.injEq] at hrun
            subst hrun
            refine ⟨hlost.mono fun e m _ hin => ⟨i, hstat, .inr ⟨hrecursive, hin⟩⟩, hcode,
              fun h => absurd h hrc, fun h => absurd h hrc⟩
      · rw [if_neg hkind, Option.some.injEq] at hrun
        subst hrun
        have hnil : fs.entries i = [] := by
          apply List.eq_nil_iff_forall_not_mem.mpr
          exact fun entry hentry => hkind (fs.directory_of_entry i entry.1 entry.2 hentry)
        exact deletes_end hstat (fun h => absurd h hkind) (.refl _ _)
          (fun _ _ h => absurd h hkind) fun _ => (cleared_of_ne_directory hkind).mpr hnil

/-! It returns. Each nested call is one deeper in the tree of directories. -/

theorem delete_entries_mono
    {other : FileSystem cs → Bytes → Bool → Option (FileSystem cs × ℤ)}
    (hitem : ∀ {fs file recursive result}, delete_item fs file recursive = some result →
      other fs file recursive = some result)
    (hrun : delete_entries delete_item file d_names fs = some result) :
    delete_entries other file d_names fs = some result := by
  induction d_names generalizing fs with
  | nil => exact hrun
  | cons d_name d_names ih =>
    rw [delete_entries] at hrun ⊢
    split_ifs at hrun ⊢ with hdots
    · exact ih hrun
    · cases hstat : fs.lstat (zusf_join_path cs file d_name) with
      | none => simpa only [hstat] using hrun
      | some c =>
        simp only [hstat] at hrun ⊢
        obtain ⟨next, hnext, hrun⟩ := Option.bind_eq_some_iff.mp hrun
        rw [hitem hnext, Option.bind_some]
        split_ifs at hrun ⊢ with hrc
        · exact hrun
        · exact ih hrun

/-- More nested calls than are needed change nothing. -/
theorem delete_mono {more : ℕ}
    (hrun : zusf_delete_uss_item refuses steps fs file recursive = some result)
    (hmore : steps ≤ more) : zusf_delete_uss_item refuses more fs file recursive = some result := by
  induction steps generalizing fs file recursive result more with
  | zero => cases hrun
  | succ steps ih =>
    obtain ⟨more, rfl⟩ := Nat.exists_eq_succ_of_ne_zero (show more ≠ 0 by omega)
    rw [zusf_delete_uss_item] at hrun ⊢
    cases hstat : fs.lstat file with
    | none => simpa only [hstat] using hrun
    | some i =>
      simp only [hstat] at hrun ⊢
      split_ifs at hrun ⊢
      · exact hrun
      · cases hread : fs.read_directory file with
        | none => simpa only [hread] using hrun
        | some d_names =>
          simp only [hread] at hrun ⊢
          obtain ⟨after, hloop, hrun⟩ := Option.bind_eq_some_iff.mp hrun
          rw [delete_entries_mono (fun h => ih h (Nat.le_of_succ_le_succ hmore)) hloop,
            Option.bind_some]
          exact hrun
      · exact hrun

theorem delete_entries_returns (hleads : Leads fs file i left)
    (hnames : ∀ d_name ∈ d_names, EntryName cs d_name)
    (hlost : Lost fs fs' fun e _ => fs.Inside i e)
    (hitem : ∀ {fs' : FileSystem cs} {n : FileName cs} {c : ℕ}, (Lost fs fs' fun e _ => fs.Inside i e) →
      fs'.lstat (zusf_join_path cs file n.val) = some c →
      ∃ result, delete_item fs' (zusf_join_path cs file n.val) (fs'.kind c = .directory) =
        some result ∧ Deletes fs' result.1 (zusf_join_path cs file n.val)
          (fs'.kind c = .directory) result.2) :
    ∃ result, delete_entries delete_item file d_names fs' = some result := by
  induction d_names generalizing fs' with
  | nil => exact ⟨_, rfl⟩
  | cons d_name d_names ih =>
    rw [List.forall_mem_cons] at hnames
    rw [delete_entries]
    split_ifs with hdots
    · exact ih hnames.2 hlost
    · obtain ⟨n, rfl⟩ := (or_assoc.mpr hnames.1).resolve_left hdots
      cases hstat : fs'.lstat (zusf_join_path cs file n.val) with
      | none => exact ⟨_, rfl⟩
      | some c =>
        obtain ⟨next, hnext, hdeletes⟩ := hitem hlost hstat
        dsimp only
        rw [hnext, Option.bind_some]
        split_ifs with hrc
        · exact ⟨_, rfl⟩
        · exact ih hnames.2 (hlost.child hleads hstat hdeletes)

/-- So many nested calls as there are depths of directories below are enough. -/
theorem delete_returns {next bound k : ℕ} {depth : ℕ → ℕ} (hbound : ∀ e < next, depth e ≤ bound)
    (hnext : fs.next = next) (hdepth : fs.depth = depth)
    (hk : ∀ i, fs.lstat file = some i → fs.kind i = .directory → bound + 1 ≤ depth i + k) :
    ∃ result, zusf_delete_uss_item refuses (k + 1) fs file recursive = some result := by
  induction k generalizing fs file recursive with
  | zero =>
    rw [zusf_delete_uss_item]
    cases hstat : fs.lstat file with
    | none => exact ⟨_, rfl⟩
    | some i =>
      dsimp only
      have hkind : fs.kind i ≠ .directory := by
        intro hkind
        obtain ⟨left, hleads⟩ := leads_of_lstat hstat hkind
        have hle := hbound i (hnext ▸ hleads.lt)
        have hlt := hk i hstat hkind
        omega
      rw [if_neg hkind]
      exact ⟨_, rfl⟩
  | succ k ih =>
    rw [zusf_delete_uss_item]
    cases hstat : fs.lstat file with
    | none => exact ⟨_, rfl⟩
    | some i =>
      dsimp only
      split_ifs with hkind hrecursive
      · exact ⟨_, rfl⟩
      · cases hread : fs.read_directory file with
        | none => exact ⟨_, rfl⟩
        | some d_names =>
          dsimp only
          obtain ⟨left, hleads⟩ := leads_of_lstat hstat hkind
          have hloop := @delete_entries_returns cs fs fs file i left
            (zusf_delete_uss_item refuses (k + 1)) d_names hleads (entryName_of_read hread)
            (.refl _ _)
          specialize hloop fun {fs'} {n} {c} hlost hc => by
            have hchild : ∀ x, fs'.lstat (zusf_join_path cs file n.val) = some x →
                fs'.kind x = .directory → bound + 1 ≤ depth x + k := by
              intro x hx hdirectory
              have hdeeper := Child.depth ⟨hlost.shrinks.kind ▸ hdirectory, n,
                lstat_child hleads (hlost.lstat hx)⟩
              have hbefore := hk i hstat hkind
              rw [hdepth] at hdeeper
              omega
            obtain ⟨result, hresult⟩ := @ih fs' (zusf_join_path cs file n.val)
              (fs'.kind c = .directory) (hlost.shrinks.next.trans hnext)
              (hlost.shrinks.depth.trans hdepth) hchild
            exact ⟨result, hresult, delete_deletes hresult⟩
          obtain ⟨after, hafter⟩ := hloop
          rw [hafter, Option.bind_some]
          split_ifs
          · exact ⟨_, rfl⟩
          · exact ⟨_, rfl⟩
      · exact ⟨_, rfl⟩

/-- A deletion returns whatever there is to delete. It takes nothing away but the item and what is
in it, without what is behind links, and it returns 0 only when all of that is gone. -/
theorem deletes_item (refuses : ℕ → Bool) (fs : FileSystem cs) (file : Bytes) (recursive : Bool) :
    ∃ fs' rc, (∃ steps, ∀ more ≥ steps,
        zusf_delete_uss_item refuses more fs file recursive = some (fs', rc)) ∧
      Deletes fs fs' file recursive rc := by
  obtain ⟨result, hresult⟩ := @delete_returns cs fs refuses file recursive fs.next
    ((Finset.range fs.next).sup fs.depth) ((Finset.range fs.next).sup fs.depth + 1) fs.depth
    (fun e he => Finset.le_sup (Finset.mem_range.mpr he)) rfl rfl
    fun _ _ _ => Nat.le_add_left _ _
  exact ⟨result.1, result.2, ⟨_, fun more hmore => delete_mono hresult hmore⟩,
    delete_deletes hresult⟩

/-! When it succeeds. -/

theorem Lost.canLose (h : Lost fs fs' gone) (hlose : fs.CanLose d) : fs'.CanLose d := by
  rw [h.kept]
  exact hlose

theorem Lost.clearable (h : Lost fs fs' gone) (hclear : Clearable fs refuses d) :
    Clearable fs' refuses d where
  readable := by
    rw [h.kept]
    exact hclear.readable
  lose hne := h.canLose (hclear.lose fun hnil => hne (h.shrinks.nil hnil))
  refused n c hentry := hclear.refused n c (h.shrinks.entries d n c hentry)

theorem Deletable.lost (h : Deletable fs refuses recursive d i) (hlost : Lost fs fs' gone) :
    Deletable fs' refuses recursive d i where
  lose := hlost.canLose h.lose
  refused := h.refused
  recursive_of_directory hkind := h.recursive_of_directory (hlost.shrinks.kind ▸ hkind)
  inside e he hkind := hlost.clearable
    (h.inside e (hlost.shrinks.inside he) (hlost.shrinks.kind ▸ hkind))

/-- The name is in no directory of the item. -/
theorem holder_not_inside (hkind : fs.kind i = .directory) (hlookup : fs.lookup d n = some i) :
    ¬ fs.Inside i d := by
  intro hin
  have hchild : fs.Child d i := ⟨hkind, n, lookup_eq_some.mp hlookup⟩
  exact hchild.ne hin rfl

theorem leads_of_place (hplace : fs.place file = some (d, n)) (hlookup : fs.lookup d n = some i)
    (hsearch : fs.searchable d = true) (hkind : fs.kind i = .directory) :
    ∃ left, Leads fs file i left := by
  obtain ⟨front, k, other, hparts, hfront⟩ := parts_split hplace
  refine ⟨other, ?_, ?_, hkind⟩
  · rintro rfl
    have hnil : (file_path cs []).parts = [.nothing] := by
      rw [file_path, path_slash_free List.not_mem_nil, part_nil]
    have hmem : Component.name n ∈ (file_path cs []).parts := by
      rw [hparts]
      simp
    rw [hnil] at hmem
    simp at hmem
  · have hentry := lookup_eq_some.mp hlookup
    rw [FileSystem.reach] at hfront ⊢
    rw [hparts, walk_append (List.cons_ne_nil _ _), hfront, Option.bind_some, walk_cons,
      enter_name (fs.directory_of_entry d n i hentry) hsearch hentry, Option.bind_some, hkind]
    exact walk_slashes hkind k

/-- A path still leads to its item when something in it is gone. -/
theorem Named.leads (h : Named fs file d n i) (hlose : fs.CanLose d)
    (hkind : fs.kind i = .directory) (hlost : Lost fs fs' fun e _ => fs.Inside i e) :
    fs'.lookup d n = some i ∧ ∃ left, Leads fs' file i left := by
  have hlookup : fs'.lookup d n = some i := lookup_eq_some.mpr
    (hlost.shrinks.kept d n i (lookup_eq_some.mp h.lookup) (holder_not_inside hkind h.lookup))
  exact ⟨hlookup, leads_of_place (h.stays fs' hlost) hlookup (hlost.canLose hlose).1
    (hlost.shrinks.kind ▸ hkind)⟩

theorem lstat_of_entry (h : Leads fs file i left) (hsearch : fs.searchable i = true)
    (hentry : (n, c) ∈ fs.entries i) : fs.lstat (zusf_join_path cs file n.val) = some c := by
  rw [← relative_path_singleton n, lstat_join h (List.cons_ne_nil _ _), List.map_singleton,
    walk_name (enter_name h.directory hsearch hentry), Option.map_some]

/-- The entries of an item that can be deleted can be deleted. -/
theorem Deletable.entry (h : Deletable fs refuses recursive d i) (hkind : fs.kind i = .directory)
    (hentry : (n, c) ∈ fs.entries i) : Deletable fs refuses (fs.kind c = .directory) i c where
  lose := (h.inside i .refl hkind).lose (List.ne_nil_of_mem hentry)
  refused := (h.inside i .refl hkind).refused n c hentry
  recursive_of_directory hdirectory := decide_eq_true hdirectory
  inside e he hdirectory := h.inside e (.of_entry hentry he hdirectory) hdirectory

theorem Named.entry (h : Named fs file d n i) (hlose : fs.CanLose d)
    (hkind : fs.kind i = .directory) (hlost : Lost fs fs' fun e _ => fs.Inside i e)
    (hentry : (m, c) ∈ fs'.entries i) (hsearch : fs'.searchable i = true) :
    Named fs' (zusf_join_path cs file m.val) i m c where
  found := by
    obtain ⟨left, hleads⟩ := (h.leads hlose hkind hlost).2
    exact lstat_of_entry hleads hsearch hentry
  lookup := lookup_eq_some.mpr hentry
  stays fs'' hmore := by
    have hall : Lost fs fs'' fun e _ => fs.Inside i e := by
      apply hlost.trans
      apply hmore.mono
      intro e _ hdirectory hin
      exact hlost.shrinks.inside (.of_entry hentry hin hdirectory)
    obtain ⟨left, hleads⟩ := (h.leads hlose hkind hall).2
    exact place_child hleads m

end Zowex.zusf
