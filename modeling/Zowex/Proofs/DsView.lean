import Zowex.Proofs.DsCommands
import Zowex.Spec.DsView

/-! The DD of a view and its return code. A buffered read that fails is left with the DD allocated,
and after a streamed one the return code is that of freeing the DD. -/

namespace Zowex.ds

open zds plugin

variable {cs : Charset} {Shift Contents : Type} {iconv_open : IconvOpen Shift}
  {lib : Library Contents} {sv : Services} {args : ArgumentMap} {s : System Contents}

/-- Each DD that was allocated was freed later. -/
def Released (cs : Charset) (log : List tool.Call) : Prop :=
  ∀ before command after name, log = before ++ (command, 0) :: after →
    tool.allocated_name cs command = some name →
    ∃ call ∈ after, call.2 = 0 ∧ tool.freed_name cs call.1 = some name

/-! The texts of the commands. -/

def view_alloc (cs : Charset) (args : ArgumentMap) : Bytes :=
  alloc_command cs (cs.str "input") (get_string cs args "dsn") (get_string cs args "volser")

def view_free (cs : Charset) : Bytes := cs.str "free dd(input)"

theorem takeWhile_input (cs : Charset) (rest : Bytes) :
    (cs.str "input" ++ cs.code ')' :: rest).takeWhile (· ≠ cs.code ')') = cs.str "input" := by
  rw [List.takeWhile_append_of_pos]
  · simp
  · intro c hc
    obtain ⟨letter, hletter, rfl⟩ := List.mem_map.mp hc
    have hne : ∀ letter ∈ "input".toList, letter ∈ printable ∧ letter ≠ ')' := by decide
    simpa using cs.code_ne (hne letter hletter).1 (by decide) (hne letter hletter).2

theorem view_alloc_eq (cs : Charset) (args : ArgumentMap) : ∃ rest,
    view_alloc cs args = cs.str "alloc dd(" ++ (cs.str "input" ++ cs.code ')' :: rest) := by
  simp only [view_alloc, alloc_command, List.append_assoc]
  exact ⟨_, rfl⟩

theorem free_view_alloc : tool.free_command cs (view_alloc cs args) = some (view_free cs) := by
  obtain ⟨rest, hrest⟩ := view_alloc_eq cs args
  have hdrop : (cs.str "alloc dd(" ++ (cs.str "input" ++ cs.code ')' :: rest)).drop (6 + 3) =
      cs.str "input" ++ cs.code ')' :: rest := rfl
  rw [tool.free_command, hrest, find_alloc]
  dsimp only
  rw [hdrop, if_pos (by simp), takeWhile_input]
  rfl

theorem view_alloc_name : tool.allocated_name cs (view_alloc cs args) = some (cs.str "input") := by
  obtain ⟨rest, hrest⟩ := view_alloc_eq cs args
  rw [tool.allocated_name, hrest, if_pos (.inl (tool.str_starts cs (List.prefix_refl _) _))]
  exact congrArg some (takeWhile_input cs rest)

theorem view_free_name : tool.freed_name cs (view_free cs) = some (cs.str "input") := by
  rw [tool.freed_name, view_free, if_pos (tool.str_starts_str cs (by decide))]
  exact congrArg some (takeWhile_input cs [])

/-! The log. -/

theorem released_nil : Released cs [] := by
  intro before command after name heq
  rw [eq_comm, List.append_eq_nil_iff] at heq
  cases heq.2

theorem released_failed {command : Bytes} {rc : ℤ} (h : rc ≠ 0) : Released cs [(command, rc)] := by
  intro before command' after name heq
  have hmem : (command', (0 : ℤ)) ∈ [(command, rc)] := by
    rw [heq]
    simp
  rw [List.mem_singleton, Prod.mk.injEq] at hmem
  exact absurd hmem.2.symm h

theorem not_released_kept : ¬ Released cs [(view_alloc cs args, 0)] := by
  intro h
  obtain ⟨call, hcall, -⟩ := h [] _ [] _ rfl view_alloc_name
  cases hcall

theorem released_iff {rc : ℤ} :
    Released cs ([(view_alloc cs args, 0)] ++ [(view_free cs, rc)]) ↔ rc = 0 := by
  constructor
  · intro h
    obtain ⟨call, hcall, hrc, -⟩ := h [] _ _ _ rfl view_alloc_name
    rw [List.mem_singleton.mp hcall] at hrc
    exact hrc
  · rintro rfl before command after name heq hname
    rcases before with _ | ⟨first, before⟩
    · rw [List.nil_append, List.singleton_append, List.cons_eq_cons, Prod.mk.injEq] at heq
      obtain ⟨⟨rfl, -⟩, rfl⟩ := heq
      rw [view_alloc_name] at hname
      exact ⟨_, List.mem_singleton_self _, rfl, view_free_name.trans hname⟩
    · -- What frees a DD allocates none.
      rw [List.singleton_append, List.cons_append, List.cons_eq_cons] at heq
      have hmem : (command, (0 : ℤ)) ∈ [(view_free cs, (0 : ℤ))] := by
        rw [heq.2]
        simp
      rw [List.mem_singleton, Prod.mk.injEq] at hmem
      rw [hmem.1, tool.allocated_of_free (@free_view_alloc cs args)] at hname
      cases hname

/-! The ways out. -/

def ReadSucceeds (cs : Charset) (iconv_open : IconvOpen Shift) (lib : Library Contents)
    (sv : Services) (args : ArgumentMap) (s : System Contents) : Prop :=
  ∃ text, handle_data_set_view cs iconv_open lib sv args s = some (.ok text)

/-- The view tells the truth, and leaves no DD. -/
def Sound (cs : Charset) (iconv_open : IconvOpen Shift) (lib : Library Contents) (sv : Services)
    (args : ArgumentMap) (s : System Contents) : Prop :=
  ((view cs iconv_open lib sv args s).rc = 0 → ReadSucceeds cs iconv_open lib sv args s) ∧
    Released cs (view cs iconv_open lib sv args s).log

theorem failure_ne : zjb.RTNCD_FAILURE ≠ 0 := by decide

theorem read_rc_iff : read_rc (handle_data_set_view cs iconv_open lib sv args s) = 0 ↔
    ReadSucceeds cs iconv_open lib sv args s := by
  rw [ReadSucceeds]
  rcases handle_data_set_view cs iconv_open lib sv args s with _ | _ | text
  · simp [read_rc, failure_ne]
  · simp [read_rc, failure_ne, Except.isOk, Except.toBool]
  · simp [read_rc, Except.isOk, Except.toBool]

theorem sound_of_no_volume (h : get_string cs args "volser" = []) :
    Sound cs iconv_open lib sv args s := by
  have hdds : view_dds cs args = [] := by
    rw [view_dds]
    exact if_neg (not_not.mpr h)
  have hview : view cs iconv_open lib sv args s =
      if get_string cs args "pipe-path" = [] ∧
          read_rc (handle_data_set_view cs iconv_open lib sv args s) ≠ 0 then
        ⟨zjb.RTNCD_FAILURE, [], handle_data_set_view cs iconv_open lib sv args s⟩
      else ⟨read_rc (handle_data_set_view cs iconv_open lib sv args s), [],
        handle_data_set_view cs iconv_open lib sv args s⟩ := by
    rw [view, hdds]
    rfl
  rw [Sound, hview]
  by_cases hfails : get_string cs args "pipe-path" = [] ∧
      read_rc (handle_data_set_view cs iconv_open lib sv args s) ≠ 0
  · rw [if_pos hfails]
    exact ⟨fun hrc => absurd hrc failure_ne, released_nil⟩
  · rw [if_neg hfails]
    exact ⟨read_rc_iff.mp, released_nil⟩

theorem view_dds_volume (h : get_string cs args "volser" ≠ []) :
    view_dds cs args = [view_alloc cs args] := by
  rw [view_dds]
  exact if_pos h

theorem sound_of_not_allocated (h : get_string cs args "volser" ≠ [])
    (halloc : sv.tool.bpxwdyn 0 (view_alloc cs args) ≠ 0) : Sound cs iconv_open lib sv args s := by
  have hview : view cs iconv_open lib sv args s =
      ⟨zjb.RTNCD_FAILURE, [(view_alloc cs args, sv.tool.bpxwdyn 0 (view_alloc cs args))], none⟩ := by
    rw [view, view_dds_volume h, tool.zut_loop_dynalloc]
    dsimp only
    rw [if_pos halloc]
    exact if_pos failure_ne
  rw [Sound, hview]
  exact ⟨fun hrc => absurd hrc failure_ne, released_failed halloc⟩

/-- After the allocation, a buffered read that fails is the end; else the DD is freed. -/
theorem view_allocated (h : get_string cs args "volser" ≠ [])
    (halloc : sv.tool.bpxwdyn 0 (view_alloc cs args) = 0) :
    view cs iconv_open lib sv args s =
      if get_string cs args "pipe-path" = [] ∧
          read_rc (handle_data_set_view cs iconv_open lib sv args s) ≠ 0 then
        ⟨zjb.RTNCD_FAILURE, [(view_alloc cs args, 0)],
          handle_data_set_view cs iconv_open lib sv args s⟩
      else ⟨if sv.tool.bpxwdyn 1 (view_free cs) ≠ 0 then zjb.RTNCD_FAILURE else 0,
        [(view_alloc cs args, 0)] ++ [(view_free cs, sv.tool.bpxwdyn 1 (view_free cs))],
        handle_data_set_view cs iconv_open lib sv args s⟩ := by
  have hloop : tool.zut_loop_dynalloc sv.tool 0 [view_alloc cs args] =
      (0, [(view_alloc cs args, 0)]) := by
    rw [tool.zut_loop_dynalloc]
    dsimp only
    rw [if_neg (not_not.mpr halloc), halloc]
    rfl
  have hfree : tool.zut_free_dynalloc_dds cs sv.tool 1 [view_alloc cs args] =
      (if sv.tool.bpxwdyn 1 (view_free cs) ≠ 0 then zjb.RTNCD_FAILURE else 0,
        [(view_free cs, sv.tool.bpxwdyn 1 (view_free cs))]) := by
    rw [tool.zut_free_dynalloc_dds, List.mapM_cons, free_view_alloc]
    change tool.zut_loop_dynalloc sv.tool 1 [view_free cs] = _
    rw [tool.zut_loop_dynalloc]
    dsimp only
    by_cases hfails : sv.tool.bpxwdyn 1 (view_free cs) ≠ 0
    · rw [if_pos hfails, if_pos hfails]
    · rw [if_neg hfails, if_neg hfails]
      rfl
  rw [view, view_dds_volume h, hloop]
  dsimp only
  rw [if_neg (by simp)]
  by_cases hfails : get_string cs args "pipe-path" = [] ∧
      read_rc (handle_data_set_view cs iconv_open lib sv args s) ≠ 0
  · rw [if_pos hfails, if_pos hfails]
  · rw [if_neg hfails, if_neg hfails, if_pos (by simp), List.length_singleton, hfree]
    dsimp only
    by_cases hkept : sv.tool.bpxwdyn 1 (view_free cs) ≠ 0
    · rw [if_pos hkept, if_pos failure_ne]
    · rw [if_neg hkept, if_neg (by simp)]

theorem sound_allocated_iff (h : get_string cs args "volser" ≠ [])
    (halloc : sv.tool.bpxwdyn 0 (view_alloc cs args) = 0) :
    Sound cs iconv_open lib sv args s ↔
      ReadSucceeds cs iconv_open lib sv args s ∧ sv.tool.bpxwdyn 1 (view_free cs) = 0 := by
  rw [Sound, view_allocated h halloc]
  by_cases hfails : get_string cs args "pipe-path" = [] ∧
      read_rc (handle_data_set_view cs iconv_open lib sv args s) ≠ 0
  · rw [if_pos hfails]
    constructor
    · exact fun hsound => absurd hsound.2 not_released_kept
    · exact fun hboth => absurd (read_rc_iff.mpr hboth.1) hfails.2
  · rw [if_neg hfails, released_iff]
    constructor
    · rintro ⟨hread, hfree⟩
      exact ⟨hread (if_neg (not_not.mpr hfree)), hfree⟩
    · rintro ⟨hread, hfree⟩
      exact ⟨fun _ => hread, hfree⟩

/-- A view tells the truth and leaves no DD just when it allocates none, or both its read and the
free succeed. -/
theorem view_sound_iff (cs : Charset) (iconv_open : IconvOpen Shift) (lib : Library Contents)
    (sv : Services) (args : ArgumentMap) (s : System Contents) :
    Sound cs iconv_open lib sv args s ↔
      get_string cs args "volser" = [] ∨ sv.tool.bpxwdyn 0 (view_alloc cs args) ≠ 0 ∨
        ReadSucceeds cs iconv_open lib sv args s ∧ sv.tool.bpxwdyn 1 (view_free cs) = 0 := by
  by_cases hvolume : get_string cs args "volser" = []
  · exact iff_of_true (sound_of_no_volume hvolume) (.inl hvolume)
  by_cases halloc : sv.tool.bpxwdyn 0 (view_alloc cs args) = 0
  · rw [sound_allocated_iff hvolume halloc]
    simp [hvolume, halloc]
  · exact iff_of_true (sound_of_not_allocated hvolume halloc) (.inr (.inl halloc))

/-! A data set that cannot be read. -/

def unreadable : Services :=
  { accepting with
    data_sets := { services_work with file := { services_work.file with fopen_read := false } } }

def two_volumes : System (Bytes × Bool) := ⟨fun _ => none, fun _ _ => ([], false)⟩

theorem unreadable_view (h : get_string cs args "volser" ≠ []) :
    handle_data_set_view cs identity rewritten unreadable args two_volumes =
      some (.error .not_opened) := by
  have hcontents : view_contents cs identity rewritten unreadable args ([], false) =
      .error .not_opened := by
    rw [view_contents]
    by_cases hpipe : get_string cs args "pipe-path" ≠ []
    · rw [if_pos hpipe]
      rfl
    · rw [if_neg hpipe]
      rfl
  rw [handle_data_set_view]
  dsimp only
  rw [if_pos h, if_neg]
  · exact congrArg some hcontents
  · exact not_not.mpr (working_loop 0 _)

theorem unreadable_fails (h : get_string cs args "volser" ≠ []) :
    ¬ ReadSucceeds cs identity rewritten unreadable args two_volumes := by
  rintro ⟨text, htext⟩
  rw [unreadable_view h] at htext
  cases htext

/-- `--dsn A.B --volser VOL2 --pipe-path /tmp/p`. -/
def on_second_volume_piped : ArgumentMap :=
  on_second_volume.insert (ibm1047.str "pipe-path") (.string (ibm1047.str "/tmp/p"))

/-- The buffered view leaves its DD, and the one through a pipe is a success without a read. -/
theorem unreadable_volume :
    ¬ Released ibm1047
      (view ibm1047 identity rewritten unreadable on_second_volume two_volumes).log ∧
    (view ibm1047 identity rewritten unreadable on_second_volume_piped two_volumes).rc = 0 ∧
    ¬ ReadSucceeds ibm1047 identity rewritten unreadable on_second_volume_piped two_volumes := by
  have hvolser : get_string ibm1047 on_second_volume "volser" ≠ [] := by decide +kernel
  have hvolser' : get_string ibm1047 on_second_volume_piped "volser" ≠ [] := by decide +kernel
  refine ⟨?_, ?_, unreadable_fails hvolser'⟩
  · have hfails : get_string ibm1047 on_second_volume "pipe-path" = [] ∧ read_rc
        (handle_data_set_view ibm1047 identity rewritten unreadable on_second_volume two_volumes) ≠
          0 :=
      ⟨by decide +kernel, fun hrc => unreadable_fails hvolser (read_rc_iff.mp hrc)⟩
    rw [view_allocated hvolser rfl, if_pos hfails]
    exact not_released_kept
  · have hpipe : ¬ (get_string ibm1047 on_second_volume_piped "pipe-path" = [] ∧ read_rc
        (handle_data_set_view ibm1047 identity rewritten unreadable on_second_volume_piped
          two_volumes) ≠ 0) := fun h => absurd h.1 (by decide +kernel)
    have hfree : unreadable.tool.bpxwdyn 1 (view_free ibm1047) = 0 := rfl
    rw [view_allocated hvolser' rfl, if_neg hpipe]
    dsimp only
    rw [if_neg (not_not.mpr hfree)]

end Zowex.ds
