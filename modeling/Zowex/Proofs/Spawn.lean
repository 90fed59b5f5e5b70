import Zowex.Spec.Spawn

/-! The command that is looked at for the environment is the program that is run. For a shell command
that is the shell. -/

namespace Zowex.zut

variable {cs : Charset}

theorem is_shareas_yes : is_shareas cs (cs.str "_BPX_SHAREAS=YES") = true := by
  rw [is_shareas, List.isPrefixOf_iff_prefix]
  exact ⟨cs.str "YES", rfl⟩

theorem build_env_others (cs : Charset) (process : Process) (command : Bytes) :
    ((zut_private_build_env cs process command).filter fun entry => !is_shareas cs entry) =
      process.environ.filter fun entry => !is_shareas cs entry := by
  have hyes : [cs.str "_BPX_SHAREAS=YES"].filter (fun entry => !is_shareas cs entry) = [] := by
    rw [List.filter_singleton, is_shareas_yes]
    rfl
  rw [zut_private_build_env]
  cases zut_private_command_requires_noshareas cs command with
  | true => simp
  | false =>
    rw [if_neg Bool.false_ne_true]
    by_cases hnone : (!false && !process.environ.any (is_shareas cs)) = true
    · rw [if_pos hnone, List.filter_append, hyes, List.append_nil]
    · rw [if_neg hnone]

theorem build_env_shareas (cs : Charset) (process : Process) (command : Bytes) :
    (∃ entry ∈ zut_private_build_env cs process command, is_shareas cs entry = true) ↔
      ¬ zut_private_command_requires_noshareas cs command = true := by
  rw [zut_private_build_env]
  cases zut_private_command_requires_noshareas cs command with
  | true =>
    rw [iff_false_right (not_not.mpr rfl)]
    rintro ⟨entry, hentry, hshareas⟩
    have hother := (List.mem_filter.mp hentry).2
    rw [hshareas] at hother
    cases hother
  | false =>
    refine iff_of_true ?_ Bool.false_ne_true
    cases hany : process.environ.any (is_shareas cs) with
    | true => exact List.any_eq_true.mp hany
    | false => exact ⟨_, List.mem_append_right _ (List.mem_singleton_self _), is_shareas_yes⟩

theorem spawned_environ {process : Process} {command : Bytes} {child : Child}
    (h : zut_spawn_shell_command cs process command = some child) :
    child.environ = zut_private_build_env cs process (zut_private_get_shell cs process) := by
  rw [zut_spawn_shell_command, zut_private_run_program] at h
  split_ifs at h
  cases h
  rfl

/-- The environment is that for the shell, and so the one for the command just where both or neither
of them changes its identity. -/
theorem inherits_iff (cs : Charset) (process : Process) (command : Bytes) (child : Child)
    (h : zut_spawn_shell_command cs process command = some child) :
    Inherits cs command process.environ child.environ ↔
      (ChangesIdentity cs command ↔
        zut_private_command_requires_noshareas cs (zut_private_get_shell cs process) = true) := by
  have hothers := build_env_others cs process (zut_private_get_shell cs process)
  have hshareas := build_env_shareas cs process (zut_private_get_shell cs process)
  rw [← spawned_environ h] at hothers hshareas
  constructor
  · intro hinherits
    exact not_iff_not.mp (hinherits.shareas.symm.trans hshareas)
  · intro hsame
    exact ⟨hshareas.trans (not_congr hsame.symm), hothers⟩

/-- A process with a shell and a search path. -/
def with_path : Process := ⟨[ibm1047.str "PATH=/bin"], true, true⟩

theorem inherits_iff_list : Inherits ibm1047 (ibm1047.str "ls") with_path.environ
    [ibm1047.str "PATH=/bin", ibm1047.str "_BPX_SHAREAS=YES"] :=
  (inherits_iff ibm1047 with_path (ibm1047.str "ls") ⟨_, _, _⟩ rfl).mpr (by
    refine iff_of_false ?_ ?_
    · rintro ⟨word, hword, hbase⟩
      obtain rfl : ibm1047.str "ls" = word := by
        have hfound : (tokens ibm1047 (ibm1047.str "ls")).find? (fun word =>
            !is_assignment ibm1047 word) = some (ibm1047.str "ls") := by decide +kernel
        exact Option.some.inj (hfound.symm.trans hword)
      revert hbase
      decide +kernel
    · decide +kernel)

/-- `su` is run in the address space of the shell. -/
theorem su_shares : ¬ ∀ (process : Process) (command : Bytes) (child : Child),
    zut_spawn_shell_command ibm1047 process command = some child →
      Inherits ibm1047 command process.environ child.environ := by
  intro hall
  have hinherits := hall with_path (ibm1047.str "su root") _ rfl
  refine hinherits.shareas.mp ⟨ibm1047.str "_BPX_SHAREAS=YES", ?_, ?_⟩ ⟨ibm1047.str "su", ?_, ?_⟩
  · decide +kernel
  · decide +kernel
  · decide +kernel
  · decide +kernel

end Zowex.zut
