import Zowex.Lib.Traversals
import Zowex.Spec.Tools
import Zowex.Proofs.Listings

/-! When a command leaves no DD behind: the first failure among its allocations, and among its
frees, leaves those before it, or after it, as they are. -/

namespace Zowex.tool

open zjb

variable {cs : Charset} {sv : Services}

/-! The loop. -/

theorem succeed_nil (calls : ℕ) : Succeed sv calls [] :=
  fun _ _ h => absurd (Option.some_ne_none _ h.symm) not_false

theorem succeed_cons {calls : ℕ} {command : Bytes} {commands : List Bytes} :
    Succeed sv calls (command :: commands) ↔
      sv.bpxwdyn calls command = 0 ∧ Succeed sv (calls + 1) commands := by
  constructor
  · intro h
    refine ⟨h 0 command rfl, fun i next hnext => ?_⟩
    have hlater := h (i + 1) next hnext
    rw [show calls + (i + 1) = calls + 1 + i by omega] at hlater
    exact hlater
  · rintro ⟨hfirst, hrest⟩ i next hnext
    rcases i with _ | i
    · rw [List.getElem?_cons_zero, Option.some_inj] at hnext
      rw [← hnext]
      exact hfirst
    · have hlater := hrest i next hnext
      rw [show calls + (i + 1) = calls + 1 + i by omega]
      exact hlater

/-- The loop goes through the commands up to the first that fails. -/
theorem loop_cases (calls : ℕ) (commands : List Bytes) :
    (Succeed sv calls commands ∧
      zut_loop_dynalloc sv calls commands = (0, commands.map fun command => (command, 0))) ∨
    ∃ before command after rc, commands = before ++ command :: after ∧ Succeed sv calls before ∧
      rc ≠ 0 ∧ sv.bpxwdyn (calls + before.length) command = rc ∧
      zut_loop_dynalloc sv calls commands =
        (zjb.RTNCD_FAILURE, (before.map fun command => (command, 0)) ++ [(command, rc)]) := by
  induction commands generalizing calls with
  | nil => exact .inl ⟨succeed_nil calls, rfl⟩
  | cons command commands ih =>
    rw [zut_loop_dynalloc]
    by_cases hrc : sv.bpxwdyn calls command ≠ 0
    · rw [if_pos hrc]
      exact .inr ⟨[], command, commands, _, rfl, succeed_nil calls, hrc, rfl, rfl⟩
    rw [if_neg hrc]
    rw [not_not] at hrc
    rcases ih (calls + 1) with ⟨hall, hrun⟩ | ⟨before, failed, after, rc, rfl, hbefore, hfailed,
      hcall, hrun⟩
    · refine .inl ⟨succeed_cons.mpr ⟨hrc, hall⟩, ?_⟩
      rw [hrun, hrc]
      rfl
    · refine .inr ⟨command :: before, failed, after, rc, rfl, succeed_cons.mpr ⟨hrc, hbefore⟩,
        hfailed, ?_, ?_⟩
      · rw [List.length_cons, show calls + (before.length + 1) = calls + 1 + before.length by omega]
        exact hcall
      · rw [hrun, hrc]
        rfl

/-- A command is passed just when none before it fails. -/
theorem mem_loop_iff {calls : ℕ} {commands : List Bytes} {p : Bytes → Prop} :
    (∃ call ∈ (zut_loop_dynalloc sv calls commands).2, p call.1) ↔
      ∃ before command after, commands = before ++ command :: after ∧ p command ∧
        Succeed sv calls before := by
  induction commands generalizing calls with
  | nil => simp [zut_loop_dynalloc]
  | cons first commands ih =>
    rw [zut_loop_dynalloc]
    constructor
    · intro h
      by_cases hrc : sv.bpxwdyn calls first ≠ 0
      · rw [if_pos hrc] at h
        obtain ⟨call, hcall, hp⟩ := h
        rw [List.mem_singleton.mp hcall] at hp
        exact ⟨[], first, commands, rfl, hp, succeed_nil calls⟩
      · rw [if_neg hrc] at h
        obtain ⟨call, hcall, hp⟩ := h
        rcases List.mem_cons.mp hcall with rfl | hcall
        · exact ⟨[], first, commands, rfl, hp, succeed_nil calls⟩
        · obtain ⟨before, command, after, rfl, hcommand, hbefore⟩ := ih.mp ⟨call, hcall, hp⟩
          exact ⟨first :: before, command, after, rfl, hcommand,
            succeed_cons.mpr ⟨not_not.mp hrc, hbefore⟩⟩
    · rintro ⟨before, command, after, heq, hp, hbefore⟩
      rcases before with _ | ⟨first', before⟩
      · obtain ⟨rfl, -⟩ := List.cons_eq_cons.mp heq
        by_cases hrc : sv.bpxwdyn calls first ≠ 0
        · rw [if_pos hrc]
          exact ⟨_, List.mem_singleton_self _, hp⟩
        · rw [if_neg hrc]
          exact ⟨_, List.mem_cons_self, hp⟩
      · obtain ⟨rfl, rfl⟩ := List.cons_eq_cons.mp heq
        obtain ⟨hfirst, hrest⟩ := succeed_cons.mp hbefore
        rw [if_neg (not_not.mpr hfirst)]
        obtain ⟨call, hcall, hpcall⟩ := ih.mpr ⟨before, command, after, rfl, hp, hrest⟩
        exact ⟨call, List.mem_cons_of_mem _ hcall, hpcall⟩

/-! The texts of the commands. -/

/-- The text of an allocation. -/
def IsAlloc (cs : Charset) (command : Bytes) : Prop :=
  (cs.str "alloc dd(").isPrefixOf command ∨ (cs.str "alloc fi(").isPrefixOf command

theorem str_starts (cs : Charset) {a b : String} (h : a.toList <+: b.toList) (rest : Bytes) :
    (cs.str a).isPrefixOf (cs.str b ++ rest) :=
  List.isPrefixOf_iff_prefix.mpr ((h.map cs.code).trans (List.prefix_append _ rest))

theorem str_starts_str (cs : Charset) {a b : String} (h : a.toList <+: b.toList) :
    (cs.str a).isPrefixOf (cs.str b) :=
  List.isPrefixOf_iff_prefix.mpr (h.map cs.code)

theorem dds_alloc (command : Command) : ∀ dd ∈ command.dds cs, IsAlloc cs dd := by
  cases command with
  | convert_dsect args =>
    simp only [Command.dds, convert_dds, List.append_assoc, List.forall_mem_cons]
    exact ⟨.inr (str_starts cs (by decide) _), .inr (str_starts cs (by decide) _),
      .inr (str_starts cs (by decide) _), .inr (str_starts cs (by decide) _),
      fun _ h => by cases h⟩
  | search args =>
    simp only [Command.dds, search_dds, List.append_assoc, List.forall_mem_cons]
    exact ⟨.inl (str_starts cs (by decide) _), .inl (str_starts cs (by decide) _),
      .inl (str_starts_str cs (by decide)), fun _ h => by cases h⟩
  | amblist args =>
    simp only [Command.dds, amblist_dds, List.append_assoc, List.forall_mem_cons]
    exact ⟨.inl (str_starts cs (by decide) _), .inl (str_starts_str cs (by decide)),
      .inl (str_starts_str cs (by decide)), fun _ h => by cases h⟩
  | run args =>
    intro dd hdd
    obtain ⟨⟨key, dd_spec⟩, -, rfl⟩ := List.mem_map.mp hdd
    dsimp only
    rw [List.append_assoc, List.append_assoc]
    exact .inl (str_starts cs (List.prefix_refl _) _)
  | compress dsn =>
    simp only [Command.dds, compress_dds, List.append_assoc, List.forall_mem_cons]
    exact ⟨.inl (str_starts cs (by decide) _), .inl (str_starts cs (by decide) _),
      .inl (str_starts_str cs (by decide)), .inl (str_starts_str cs (by decide)),
      fun _ h => by cases h⟩

theorem allocated_of_alloc {command : Bytes} (h : IsAlloc cs command) :
    ∃ name, allocated_name cs command = some name := by
  exact ⟨_, if_pos h⟩

theorem code_a_ne_f : cs.code 'a' ≠ cs.code 'f' := by
  rw [Ne, cs.code_eq_iff (by decide) (by decide)]
  decide

theorem head_of_start {text : String} {c : Char} {rest : List Char} {command : Bytes}
    (htext : text.toList = c :: rest) (h : (cs.str text).isPrefixOf command = true) :
    command.head? = some (cs.code c) := by
  obtain ⟨more, rfl⟩ := List.isPrefixOf_iff_prefix.mp h
  rw [Charset.str, htext]
  rfl

theorem head_of_alloc {command : Bytes} (h : IsAlloc cs command) :
    command.head? = some (cs.code 'a') := by
  rcases h with hdd | hfi
  · exact head_of_start rfl hdd
  · exact head_of_start rfl hfi

/-- An allocation frees nothing. -/
theorem freed_of_alloc {command : Bytes} (h : IsAlloc cs command) :
    freed_name cs command = none := by
  refine if_neg fun hfree => ?_
  exact code_a_ne_f (Option.some.inj ((head_of_alloc h).symm.trans (head_of_start rfl hfree)))

/-- What frees a DD allocates nothing. -/
theorem allocated_of_free {entry command : Bytes} (h : free_command cs entry = some command) :
    allocated_name cs command = none := by
  have hhead : command.head? = some (cs.code 'f') := by
    rw [free_command] at h
    revert h
    rcases find (cs.str "dd(") entry with _ | dd_start
    · intro h
      cases h
    dsimp only
    intro h
    split_ifs at h
    rw [← Option.some.inj h]
    rfl
  refine if_neg fun halloc => ?_
  exact code_a_ne_f (Option.some.inj ((head_of_alloc halloc).symm.trans hhead))

/-! The log. -/

/-- Allocations, and then calls that are not: each DD is to be freed by one of these. -/
theorem leaves_none_iff {dds : List Bytes} (hdds : ∀ dd ∈ dds, IsAlloc cs dd) {log : List Call}
    (hlog : ∀ call ∈ log, call.2 = 0 → allocated_name cs call.1 = none) :
    LeavesNone cs ((dds.map fun dd => (dd, 0)) ++ log) ↔
      ∀ dd ∈ dds, ∃ call ∈ log, freed_name cs call.1 = allocated_name cs dd := by
  constructor
  · intro h dd hdd
    obtain ⟨name, hname⟩ := allocated_of_alloc (hdds dd hdd)
    obtain ⟨before, after, rfl⟩ := List.append_of_mem hdd
    obtain ⟨call, hcall, hfreed⟩ := h (before.map fun dd => (dd, 0)) dd
      ((after.map fun dd => (dd, 0)) ++ log) name (by simp) hname
    rcases List.mem_append.mp hcall with hafter | hlogged
    · obtain ⟨next, hnext, rfl⟩ := List.mem_map.mp hafter
      rw [freed_of_alloc (hdds next (by simp [hnext]))] at hfreed
      cases hfreed
    · exact ⟨call, hlogged, hfreed.trans hname.symm⟩
  · intro h before command after name heq hname
    rcases List.append_eq_append_iff.mp heq with ⟨rest, rfl, hrest⟩ | ⟨rest, hrest, hafter⟩
    · -- The call is one of those after the allocations.
      have hnone := hlog (command, 0) (by rw [hrest]; simp) rfl
      rw [hname] at hnone
      cases hnone
    · rcases rest with _ | ⟨first, rest⟩
      · rw [List.nil_append] at hafter
        have hnone := hlog (command, 0) (by rw [← hafter]; exact List.mem_cons_self) rfl
        rw [hname] at hnone
        cases hnone
      · obtain ⟨rfl, rfl⟩ := List.cons_eq_cons.mp hafter
        have hmem : (command, (0 : ℤ)) ∈ dds.map fun dd => (dd, (0 : ℤ)) := by
          rw [hrest]
          simp
        obtain ⟨dd, hdd, heq⟩ := List.mem_map.mp hmem
        obtain rfl : dd = command := congrArg Prod.fst heq
        obtain ⟨call, hcall, hfreed⟩ := h dd hdd
        exact ⟨call, List.mem_append_right _ hcall, hfreed.trans hname⟩

/-- What is passed where the DDs are freed. -/
theorem freed_iff {dds : List Bytes} (hne : dds ≠ []) {calls : ℕ} (hcalls : calls = dds.length) :
    (∀ dd ∈ dds, ∃ call ∈ (zut_free_dynalloc_dds cs sv calls dds).2,
        freed_name cs call.1 = allocated_name cs dd) ↔ EachFreed cs sv dds := by
  subst hcalls
  rw [zut_free_dynalloc_dds, EachFreed]
  rcases hfrees : dds.mapM (free_command cs) with _ | free_dds
  · constructor
    · intro h
      obtain ⟨dd, hdd⟩ := List.exists_mem_of_ne_nil dds hne
      obtain ⟨call, hcall, -⟩ := h dd hdd
      cases hcall
    · rintro ⟨_, hnone, -⟩
      cases hnone
  · dsimp only
    constructor
    · exact fun h => ⟨free_dds, rfl, fun dd hdd => mem_loop_iff.mp (h dd hdd)⟩
    · rintro ⟨_, hsome, h⟩ dd hdd
      obtain rfl := Option.some.inj hsome
      exact mem_loop_iff.mpr (h dd hdd)

theorem free_commands {dds free_dds : List Bytes}
    (h : dds.mapM (free_command cs) = some free_dds) :
    ∀ command ∈ free_dds, allocated_name cs command = none := by
  intro command hcommand
  obtain ⟨dd, -, hdd⟩ := Traversals.mem_of_mapM h command hcommand
  exact allocated_of_free hdd

theorem mem_loop {calls : ℕ} {commands : List Bytes} {call : Call}
    (h : call ∈ (zut_loop_dynalloc sv calls commands).2) : call.1 ∈ commands := by
  obtain ⟨before, command, after, rfl, rfl, -⟩ :=
    mem_loop_iff (p := fun command => command = call.1) |>.mp ⟨call, h, rfl⟩
  simp

theorem free_allocates_none {calls : ℕ} {dds : List Bytes} :
    ∀ call ∈ (zut_free_dynalloc_dds cs sv calls dds).2, call.2 = 0 →
      allocated_name cs call.1 = none := by
  intro call hcall _
  rw [zut_free_dynalloc_dds] at hcall
  rcases hfrees : dds.mapM (free_command cs) with _ | free_dds
  · rw [hfrees] at hcall
    cases hcall
  · rw [hfrees] at hcall
    exact free_commands hfrees _ (mem_loop hcall)

/-! The commands. -/

/-- A command whose allocations do not all succeed is left at once. -/
theorem handle_log_failed {command : Command} (hpds : ¬ NotCompressed sv command) {rc : ℤ}
    {log : List Call} (hloop : zut_loop_dynalloc sv 0 (command.dds cs) = (rc, log)) (h : rc ≠ 0) :
    (command.handle cs sv).log = log := by
  cases command with
  | convert_dsect args =>
    change zut_loop_dynalloc sv 0 (convert_dds cs args) = _ at hloop
    rw [Command.handle, handle_tool_convert_dsect, hloop]
    exact congrArg Run.log (if_pos h)
  | search args =>
    change zut_loop_dynalloc sv 0 (search_dds cs args) = _ at hloop
    rw [Command.handle, handle_tool_search, hloop]
    exact congrArg Run.log (if_pos h)
  | amblist args =>
    change zut_loop_dynalloc sv 0 (amblist_dds cs args) = _ at hloop
    rw [Command.handle, handle_tool_amblist, hloop]
    exact congrArg Run.log (if_pos h)
  | run args =>
    change zut_loop_dynalloc sv 0 (run_dds cs args) = _ at hloop
    rw [Command.handle, handle_tool_run, hloop]
    exact congrArg Run.log (if_pos h)
  | compress dsn =>
    change zut_loop_dynalloc sv 0 (compress_dds cs dsn) = _ at hloop
    rw [Command.handle, handle_data_set_compress, if_neg (by simpa [NotCompressed] using hpds)]
    dsimp only
    rw [hloop]
    exact congrArg Run.log (if_pos h)

theorem handle_log_not_listed {command : Command} {log : List Call}
    (hloop : zut_loop_dynalloc sv 0 (command.dds cs) = (0, log))
    (hlisted : NotListed cs sv command) : (command.handle cs sv).log = log := by
  cases command with
  | run args =>
    change zut_loop_dynalloc sv 0 (run_dds cs args) = _ at hloop
    obtain ⟨hin, hout, hsysout, hrc⟩ := hlisted
    have hopen : ¬ (args.in_dd ≠ [] ∧ (!sv.ofstream args.in_dd) = true) := by
      rintro ⟨hne, hclosed⟩
      rw [hin hne] at hclosed
      cases hclosed
    rw [Command.handle, handle_tool_run, hloop]
    dsimp only
    rw [if_neg (not_not.mpr rfl), if_neg hopen, if_neg hout, if_pos hsysout, if_pos hrc]
  | _ => exact absurd hlisted not_false

/-- On every other way out the DDs are freed. -/
theorem handle_log_freed {command : Command} (hpds : ¬ NotCompressed sv command) {log : List Call}
    (hloop : zut_loop_dynalloc sv 0 (command.dds cs) = (0, log))
    (hlisted : ¬ NotListed cs sv command) :
    (command.handle cs sv).log =
      log ++ (zut_free_dynalloc_dds cs sv log.length (command.dds cs)).2 := by
  cases command with
  | convert_dsect args =>
    change zut_loop_dynalloc sv 0 (convert_dds cs args) = _ at hloop
    rw [Command.handle, handle_tool_convert_dsect, hloop]
    dsimp only
    rw [if_neg (not_not.mpr rfl)]
    split_ifs
    · rfl
    · rfl
  | search args =>
    change zut_loop_dynalloc sv 0 (search_dds cs args) = _ at hloop
    rw [Command.handle, handle_tool_search, hloop]
    dsimp only
    rw [if_neg (not_not.mpr rfl)]
    split_ifs
    · rfl
    · rfl
    · rfl
  | amblist args =>
    change zut_loop_dynalloc sv 0 (amblist_dds cs args) = _ at hloop
    rw [Command.handle, handle_tool_amblist, hloop]
    dsimp only
    rw [if_neg (not_not.mpr rfl)]
    split_ifs
    · rfl
    · rfl
    · rfl
  | run args =>
    change zut_loop_dynalloc sv 0 (run_dds cs args) = _ at hloop
    rw [Command.handle, handle_tool_run, hloop]
    dsimp only
    rw [if_neg (not_not.mpr rfl)]
    by_cases hopen : args.in_dd ≠ [] ∧ (!sv.ofstream args.in_dd) = true
    · rw [if_pos hopen]
      rfl
    rw [if_neg hopen]
    by_cases hout : args.out_dd = []
    · rw [if_pos hout]
      rfl
    rw [if_neg hout]
    by_cases hsysout : out_is_sysout cs args = true
    · have hrc : ¬ (zjb.zjb_list_dds cs sv.ssi {} sv.jobid).rc ≠ 0 := by
        refine fun hrc => hlisted ⟨fun hne => ?_, hout, hsysout, hrc⟩
        by_contra hclosed
        exact hopen ⟨hne, by simpa using hclosed⟩
      rw [if_pos hsysout, if_neg hrc]
      split_ifs
      · rfl
      · rfl
    · rw [if_neg hsysout]
      split_ifs
      · rfl
      · rfl
  | compress dsn =>
    change zut_loop_dynalloc sv 0 (compress_dds cs dsn) = _ at hloop
    rw [Command.handle, handle_data_set_compress, if_neg (by simpa [NotCompressed] using hpds)]
    dsimp only
    rw [hloop]
    dsimp only
    rw [if_neg (not_not.mpr rfl)]
    split_ifs
    · rfl
    · rfl
    · rfl
    · rfl
    · rfl

theorem leaves_none_nil : LeavesNone cs [] := by
  intro before command after name heq
  rw [eq_comm, List.append_eq_nil_iff] at heq
  cases heq.2

/-- DDs that were allocated and are not freed. -/
theorem leaves_none_kept_iff {dds : List Bytes} (hdds : ∀ dd ∈ dds, IsAlloc cs dd)
    {log : List Call} (hlog : ∀ call ∈ log, IsAlloc cs call.1 ∧ call.2 ≠ 0) :
    LeavesNone cs ((dds.map fun dd => (dd, 0)) ++ log) ↔ dds = [] := by
  rw [leaves_none_iff hdds fun call hcall h => absurd h (hlog call hcall).2]
  constructor
  · intro h
    by_contra hne
    obtain ⟨dd, hdd⟩ := List.exists_mem_of_ne_nil dds hne
    obtain ⟨call, hcall, hfreed⟩ := h dd hdd
    obtain ⟨name, hname⟩ := allocated_of_alloc (hdds dd hdd)
    rw [freed_of_alloc (hlog call hcall).1, hname] at hfreed
    cases hfreed
  · rintro rfl dd hdd
    cases hdd

theorem first_fails_nil : FirstFails sv [] := by
  intro command h
  cases h

/-- The first command fails just when there is none before the one that fails. -/
theorem first_fails_iff {before after : List Bytes} {failed : Bytes}
    (hbefore : Succeed sv 0 before) (hfailed : sv.bpxwdyn (0 + before.length) failed ≠ 0) :
    FirstFails sv (before ++ failed :: after) ↔ before = [] := by
  constructor
  · intro h
    rcases before with _ | ⟨first, before⟩
    · rfl
    · exact absurd (succeed_cons.mp hbefore).1 (h first rfl)
  · rintro rfl command hcommand
    rw [← Option.some.inj hcommand]
    exact hfailed

/-- Not all succeed where one fails. -/
theorem not_succeed {before after : List Bytes} {failed : Bytes}
    (hfailed : sv.bpxwdyn (0 + before.length) failed ≠ 0) :
    ¬ Succeed sv 0 (before ++ failed :: after) :=
  fun h => hfailed (h before.length failed (by simp))

/-- A command leaves no DD behind just when it allocates none, or all and each of them is freed: an
allocation that fails leaves those before it, a DD that cannot be freed those after it, and a name
that is not after `dd(` all of them. -/
theorem leaves_none_iff_all_or_nothing (command : Command) :
    LeavesNone cs (command.handle cs sv).log ↔ AllOrNothing cs sv command := by
  rw [AllOrNothing]
  by_cases hpds : NotCompressed sv command
  · have hlog : (command.handle cs sv).log = [] := by
      cases command with
      | compress dsn =>
        rw [Command.handle, handle_data_set_compress, show sv.is_pds = false from hpds]
        rfl
      | _ => exact absurd hpds not_false
    rw [hlog]
    refine iff_of_true (fun before command after name heq => ?_) (.inl hpds)
    cases before <;> cases heq
  have hdds : ∀ dd ∈ command.dds cs, IsAlloc cs dd := dds_alloc command
  rcases @loop_cases sv 0 (command.dds cs) with ⟨hall, hrun⟩ |
    ⟨before, failed, after, rc, heq, hbefore, hrc, hcall, hrun⟩
  · by_cases hempty : command.dds cs = []
    · -- There is nothing to free, on any way out.
      refine iff_of_true ?_ (.inr (.inl (hempty ▸ first_fails_nil)))
      by_cases hlisted : NotListed cs sv command
      · rw [handle_log_not_listed hrun hlisted, hempty]
        exact leaves_none_nil
      · rw [handle_log_freed hpds hrun hlisted, hempty]
        exact leaves_none_nil
    have hfirst : ¬ FirstFails sv (command.dds cs) := by
      intro h
      obtain ⟨first, rest, hcons⟩ := List.exists_cons_of_ne_nil hempty
      rw [hcons] at h hall
      exact h first rfl (succeed_cons.mp hall).1
    by_cases hlisted : NotListed cs sv command
    · rw [handle_log_not_listed hrun hlisted, ← List.append_nil (List.map _ _),
        leaves_none_kept_iff hdds fun _ h => absurd h List.not_mem_nil]
      refine iff_of_false hempty ?_
      rintro (h | h | h)
      · exact hpds h
      · exact hfirst h
      · exact h.2.1 hlisted
    · rw [handle_log_freed hpds hrun hlisted, leaves_none_iff hdds free_allocates_none,
        freed_iff hempty (List.length_map _)]
      constructor
      · exact fun h => .inr (.inr ⟨hall, hlisted, h⟩)
      · rintro (h | h | h)
        · exact absurd h hpds
        · exact absurd h hfirst
        · exact h.2.2
  · rw [handle_log_failed hpds hrun (by decide)]
    rw [heq] at hdds ⊢
    rw [← hcall] at hrc
    rw [leaves_none_kept_iff (fun dd hdd => hdds dd (List.mem_append_left _ hdd)) (by
      intro call hmem
      rw [List.mem_singleton.mp hmem]
      exact ⟨hdds failed (by simp), hcall ▸ hrc⟩)]
    constructor
    · exact fun h => .inr (.inl ((first_fails_iff hbefore hrc).mpr h))
    · rintro (h | h | h)
      · exact absurd h hpds
      · exact (first_fails_iff hbefore hrc).mp h
      · exact absurd h.1 (not_succeed hrc)

/-- Services where everything works. -/
def working : Services where
  bpxwdyn _ _ := 0
  is_pds := true
  zut_convert_dsect := 0
  zut_search _ := 0
  zut_run _ _ := 0
  zds_write _ _ := 0
  zds_read _ := (0, [])
  ofstream _ := true
  ifstream _ := true
  jobid := []
  ssi := grants [] []
  zjb_read_job_content_by_dsn _ := (0, [])

def dsect_of_a_b : Command :=
  .convert_dsect ⟨ibm1047.str "A.B", ibm1047.str "A.C", [], [], ibm1047.str "IBMUSER"⟩

/-- The name of a DD is looked for after `dd(`, and a DSECT is converted with DDs after `fi(`. -/
theorem convert_dsect_leaves_dds :
    ¬ LeavesNone ibm1047 (dsect_of_a_b.handle ibm1047 working).log := by
  have hloop : zut_loop_dynalloc working 0 (dsect_of_a_b.dds ibm1047) =
      (0, (dsect_of_a_b.dds ibm1047).map fun dd => (dd, 0)) := rfl
  have hfrees : (dsect_of_a_b.dds ibm1047).mapM (free_command ibm1047) = none := by
    decide +kernel
  have hne : dsect_of_a_b.dds ibm1047 ≠ [] := List.cons_ne_nil _ _
  have hpds : ¬ NotCompressed working dsect_of_a_b := not_false
  have hlisted : ¬ NotListed ibm1047 working dsect_of_a_b := not_false
  rw [handle_log_freed hpds hloop hlisted, leaves_none_iff (dds_alloc _) free_allocates_none,
    freed_iff hne (List.length_map _)]
  rintro ⟨free_dds, hsome, -⟩
  rw [hfrees] at hsome
  cases hsome

end Zowex.tool
