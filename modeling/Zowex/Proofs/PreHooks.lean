import Zowex.Lib.Runs
import Zowex.Proofs.HandlerCalls

/-! The marks of a command are those of the commands above it, in whatever order the tree is built,
so that no handler runs without the hooks of the parser. -/

namespace Zowex.parser

open lexer plugin Runs

variable {tree tree' : Tree} {change : Command → Command} {stack : ℕ} {ref : Ref}

namespace Tree

/-! What a change of a command and of all below it does. -/

/-- The commands in a set were changed, and nothing else. -/
structure Changed (change : Command → Command) (set : Ref → Prop) (tree tree' : Tree) : Prop where
  inside : ∀ ref, set ref → tree'.command ref = change (tree.command ref)
  outside : ∀ ref, ¬ set ref → tree'.command ref = tree.command ref
  rt : tree'.rt = tree.rt
  root : tree'.root = tree.root
  hooks : tree'.hooks = tree.hooks

theorem changed_update (tree : Tree) (ref : Ref) :
    Changed change (· = ref) tree (tree.update ref change) where
  inside := by
    rintro _ rfl
    exact Function.update_self _ _ _
  outside := fun _ hne => Function.update_of_ne hne _ _
  rt := rfl
  root := rfl
  hooks := rfl

theorem Changed.refl (change : Command → Command) (tree : Tree) :
    Changed change (fun _ => False) tree tree where
  inside := fun _ => False.elim
  outside := fun _ _ => rfl
  rt := rfl
  root := rfl
  hooks := rfl

theorem Changed.congr {set set' : Ref → Prop} (h : Changed change set tree tree')
    (hset : ∀ ref, set ref ↔ set' ref) : Changed change set' tree tree' := by
  obtain rfl : set = set' := funext fun ref => propext (hset ref)
  exact h

theorem Changed.trans {set set' : Ref → Prop} {tree'' : Tree}
    (hidem : ∀ cmd, change (change cmd) = change cmd) (h : Changed change set tree tree')
    (h' : Changed change set' tree' tree'') :
    Changed change (fun ref => set ref ∨ set' ref) tree tree'' where
  inside := by
    intro ref hmem
    by_cases hset' : set' ref
    · rw [h'.inside ref hset']
      by_cases hset : set ref
      · rw [h.inside ref hset, hidem]
      · rw [h.outside ref hset]
    · rw [h'.outside ref hset', h.inside ref (hmem.resolve_right hset')]
  outside := by
    intro ref hmem
    rw [not_or] at hmem
    rw [h'.outside ref hmem.2, h.outside ref hmem.1]
  rt := h'.rt.trans h.rt
  root := h'.root.trans h.root
  hooks := h'.hooks.trans h.hooks

theorem Changed.children {set : Ref → Prop} (h : Changed change set tree tree')
    (hcommands : ∀ cmd, (change cmd).commands = cmd.commands) :
    tree'.children = tree.children := by
  funext ref
  rw [Tree.children, Tree.children]
  by_cases hset : set ref
  · rw [h.inside ref hset, hcommands]
  · rw [h.outside ref hset]

theorem Changed.reaches {set : Ref → Prop} (h : Changed change set tree tree')
    (hcommands : ∀ cmd, (change cmd).commands = cmd.commands) :
    tree'.reaches = tree.reaches := by
  have hchild : tree'.child = tree.child := by
    funext parent sub
    rw [child, child, h.children hcommands]
  rw [Tree.reaches, Tree.reaches, hchild]

/-- The commands below a command are it and those below its children. -/
theorem reaches_iff {sub : Ref} :
    tree.reaches ref sub ↔ sub = ref ∨ ∃ next ∈ tree.children ref, tree.reaches next sub := by
  constructor
  · intro h
    rcases Relation.ReflTransGen.cases_head h with heq | ⟨next, hnext, hbelow⟩
    · exact .inl heq.symm
    · exact .inr ⟨next, hnext, hbelow⟩
  · rintro (rfl | ⟨next, hnext, hbelow⟩)
    · exact .refl
    · exact .head hnext hbelow

/-- A change is passed down to all commands below, and to no others. -/
theorem propagate_changed (hidem : ∀ cmd, change (change cmd) = change cmd)
    (hcommands : ∀ cmd, (change cmd).commands = cmd.commands)
    (h : tree.propagate change stack ref = some tree') :
    Changed change (tree.reaches ref) tree tree' := by
  induction stack generalizing tree tree' ref with
  | zero => cases h
  | succ stack ih =>
    have hsubs (subs : List Ref) {first last : Tree}
        (hfold : subs.foldlM (propagate change stack) first = some last) :
        Changed change (fun sub => ∃ next ∈ subs, first.reaches next sub) first last := by
      induction subs generalizing first with
      | nil =>
        obtain rfl : first = last := Option.some.inj hfold
        exact (Changed.refl change first).congr (by simp)
      | cons next subs ihsubs =>
        rw [List.foldlM_cons] at hfold
        obtain ⟨middle, hnext, hrest⟩ := Option.bind_eq_some_iff.mp hfold
        have hchanged := ih hnext
        have hlater := ihsubs hrest
        rw [hchanged.reaches hcommands] at hlater
        exact (hchanged.trans hidem hlater).congr (by simp)
    rw [propagate] at h
    have hupdate : Changed change (· = ref) tree (tree.update ref change) :=
      changed_update tree ref
    have hbelow := hsubs _ h
    rw [hupdate.reaches hcommands] at hbelow
    exact (hupdate.trans hidem hbelow).congr fun sub => reaches_iff.symm

/-! Marks that are passed down. -/

/-- A mark of a command is on all commands below it. -/
def passed_down (mark : Command → Bool) (tree : Tree) : Prop :=
  ∀ parent sub, tree.child parent sub → mark (tree.command parent) = true →
    mark (tree.command sub) = true

variable {mark : Command → Bool}

theorem passed_down.reaches {sub : Ref} (h : passed_down mark tree) (hreaches : tree.reaches ref sub)
    (hmark : mark (tree.command ref) = true) : mark (tree.command sub) = true := by
  induction hreaches with
  | refl => exact hmark
  | tail _ hchild ih => exact h _ _ hchild ih

/-- The mark is put on a command and on all below it. -/
theorem passed_down.set (h : passed_down mark tree)
    (hchanged : Changed change (tree.reaches ref) tree tree')
    (hcommands : ∀ cmd, (change cmd).commands = cmd.commands)
    (hmark : ∀ cmd, mark (change cmd) = true) : passed_down mark tree' := by
  intro parent sub hchild hparent
  rw [child, hchanged.children hcommands] at hchild
  by_cases hsub : tree.reaches ref sub
  · rw [hchanged.inside sub hsub]
    exact hmark _
  · have hout : ¬ tree.reaches ref parent := fun hin => hsub (hin.tail hchild)
    rw [hchanged.outside parent hout] at hparent
    rw [hchanged.outside sub hsub]
    exact h parent sub hchild hparent

/-- What changes is something else. -/
theorem passed_down.keep {set : Ref → Prop} (h : passed_down mark tree)
    (hchanged : Changed change set tree tree')
    (hcommands : ∀ cmd, (change cmd).commands = cmd.commands)
    (hmark : ∀ cmd, mark (change cmd) = mark cmd) : passed_down mark tree' := by
  have hsame (ref : Ref) : mark (tree'.command ref) = mark (tree.command ref) := by
    by_cases hset : set ref
    · rw [hchanged.inside ref hset, hmark]
    · rw [hchanged.outside ref hset]
  intro parent sub hchild hparent
  rw [child, hchanged.children hcommands] at hchild
  rw [hsame] at hparent ⊢
  exact h parent sub hchild hparent

/-- Only the subcommands of the parent change. -/
theorem attach_command (tree : Tree) (parent sub ref : Ref) :
    ∃ commands, (tree.attach parent sub).command ref =
        { tree.command ref with commands := commands } ∧
      ∀ entry ∈ commands, entry ∈ (tree.command ref).commands ∨ ref = parent ∧ entry.2 = sub := by
  by_cases href : ref = parent
  · subst href
    refine ⟨_, Function.update_self ref _ tree.command, fun entry hentry => ?_⟩
    rcases (List.mem_orderedInsert _).mp hentry with rfl | hold
    · exact .inr ⟨rfl, rfl⟩
    · exact .inl hold
  · exact ⟨_, Function.update_of_ne href _ tree.command, fun entry hentry => .inl hentry⟩

theorem passed_down.attach {parent sub : Ref} (h : passed_down mark tree)
    (hmark : ∀ cmd commands, mark { cmd with commands := commands } = mark cmd)
    (hnew : mark (tree.command parent) = true → mark (tree.command sub) = true) :
    passed_down mark (tree.attach parent sub) := by
  have hsame (ref : Ref) : mark ((tree.attach parent sub).command ref) =
      mark (tree.command ref) := by
    obtain ⟨commands, hcommand, -⟩ := attach_command tree parent sub ref
    rw [hcommand, hmark]
  intro above below hchild habove
  rw [hsame] at habove ⊢
  obtain ⟨commands, hcommand, hentries⟩ := attach_command tree parent sub above
  rw [child, children, hcommand] at hchild
  obtain ⟨entry, hentry, rfl⟩ := List.mem_map.mp hchild
  rcases hentries entry hentry with hold | ⟨rfl, hsub⟩
  · exact h above entry.2 (List.mem_map.mpr ⟨entry, hold, rfl⟩) habove
  · rw [hsub]
    exact hnew habove

theorem set_privileged_changed {privileged : Bool}
    (h : tree.set_privileged stack ref privileged = some tree') :
    Changed (fun cmd => { cmd with privileged := privileged }) (tree.reaches ref) tree tree' :=
  propagate_changed (fun _ => rfl) (fun _ => rfl) h

theorem set_pre_hooks_changed (h : tree.set_pre_hooks stack ref = some tree') :
    Changed (fun cmd => { cmd with pre_hooks := true }) (tree.reaches ref) tree tree' :=
  propagate_changed (fun _ => rfl) (fun _ => rfl) h

/-- Nothing but arguments may be added here. -/
theorem ensure_arguments_changed (tree : Tree) (ref : Ref) :
    ∃ change : Command → Command, (∀ cmd, (change cmd).commands = cmd.commands) ∧
      (∀ cmd, (change cmd).pre_hooks = cmd.pre_hooks) ∧
      (∀ cmd, (change cmd).privileged = cmd.privileged) ∧
      Changed change (· = ref) tree (tree.ensure_arguments ref) :=
  by refine ⟨_, ?_, ?_, ?_, changed_update tree ref⟩ <;> exact fun _ => rfl

theorem add_command_steps {parent sub : Ref} (h : tree.add_command stack parent sub = some tree') :
    ∃ second third : Tree,
      (tree.ensure_arguments sub).pass_privilege stack parent sub = some second ∧
      second.pass_pre_hooks stack parent sub = some third ∧
      (tree' = third ∨ tree' = third.attach parent sub) := by
  obtain ⟨second, hsecond, h⟩ := Option.bind_eq_some_iff.mp h
  obtain ⟨third, hthird, h⟩ := Option.bind_eq_some_iff.mp h
  refine ⟨second, third, hsecond, hthird, ?_⟩
  have htree := Option.some.inj h
  split_ifs at htree
  · exact .inl htree.symm
  · exact .inr htree.symm

/-! The hooks of the parser. -/

/-- The root has the hooks of the parser, and passes them down. -/
structure Hooked (tree : Tree) : Prop where
  root : (tree.command tree.root).pre_hooks = true
  down : passed_down Command.pre_hooks tree

theorem Hooked.keep {set : Ref → Prop} (h : Hooked tree)
    (hchanged : Changed change set tree tree')
    (hcommands : ∀ cmd, (change cmd).commands = cmd.commands)
    (hmark : ∀ cmd, (change cmd).pre_hooks = cmd.pre_hooks) : Hooked tree' := by
  refine ⟨?_, h.down.keep hchanged hcommands hmark⟩
  rw [hchanged.root]
  by_cases hset : set tree.root
  · rw [hchanged.inside _ hset, hmark]
    exact h.root
  · rw [hchanged.outside _ hset]
    exact h.root

theorem Hooked.set_pre_hooks (h : Hooked tree)
    (hset : tree.set_pre_hooks stack ref = some tree') :
    Hooked tree' ∧ (tree'.command ref).pre_hooks = true := by
  have hchanged := set_pre_hooks_changed hset
  refine ⟨⟨?_, h.down.set hchanged (fun _ => rfl) (fun _ => rfl)⟩, ?_⟩
  · rw [hchanged.root]
    by_cases hroot : tree.reaches ref tree.root
    · rw [hchanged.inside _ hroot]
    · rw [hchanged.outside _ hroot]
      exact h.root
  · rw [hchanged.inside ref .refl]

theorem Hooked.add_command {parent sub : Ref} (h : Hooked tree)
    (hadd : tree.add_command stack parent sub = some tree') : Hooked tree' := by
  obtain ⟨second, third, hsecond, hthird, htree⟩ := add_command_steps hadd
  obtain ⟨change, hcommands, hhooks, -, hchanged⟩ := ensure_arguments_changed tree sub
  have hensured := h.keep hchanged hcommands hhooks
  have hhooked : Hooked second := by
    unfold pass_privilege at hsecond
    split_ifs at hsecond
    · exact hensured.keep (set_privileged_changed hsecond) (fun _ => rfl) (fun _ => rfl)
    · obtain rfl := Option.some.inj hsecond
      exact hensured
  have hpassed : Hooked third ∧
      ((third.command parent).pre_hooks = true → (third.command sub).pre_hooks = true) := by
    unfold pass_pre_hooks at hthird
    split_ifs at hthird with hparent
    · obtain ⟨hthird, hsub⟩ := hhooked.set_pre_hooks hthird
      exact ⟨hthird, fun _ => hsub⟩
    · obtain rfl := Option.some.inj hthird
      exact ⟨hhooked, fun hmark => absurd hmark hparent⟩
  rcases htree with rfl | rfl
  · exact hpassed.1
  · refine ⟨?_, hpassed.1.down.attach (fun _ _ => rfl) hpassed.2⟩
    obtain ⟨commands, hcommand, -⟩ := attach_command third parent sub third.root
    have hroot : (third.attach parent sub).root = third.root := rfl
    rw [hroot, hcommand]
    exact hpassed.1.root

theorem Hooked.build {op : Building} (h : Hooked tree) (hbuild : tree.build stack op = some tree') :
    Hooked tree' := by
  cases op with
  | add_command parent sub => exact h.add_command hbuild
  | set_privileged command privileged =>
    exact h.keep (set_privileged_changed hbuild) (fun _ => rfl) (fun _ => rfl)
  | add_pre_command_hook hook =>
    have hadded : Hooked { tree with hooks := tree.hooks ++ [hook] } := ⟨h.root, h.down⟩
    exact (hadded.set_pre_hooks hbuild).1

/-! Privileges. -/

theorem passed_down.withdraw (h : passed_down Command.privileged tree)
    (hkeeps : tree.keeps_privilege (.set_privileged ref false))
    (hset : tree.set_privileged stack ref false = some tree') :
    passed_down Command.privileged tree' := by
  have hchanged := set_privileged_changed hset
  intro parent sub hchild hparent
  rw [child, hchanged.children (fun _ => rfl)] at hchild
  have hout : ¬ tree.reaches ref parent := by
    intro hin
    rw [hchanged.inside parent hin] at hparent
    cases hparent
  rw [hchanged.outside parent hout] at hparent
  have hsub : ¬ tree.reaches ref sub := fun hin => hout (hkeeps parent sub hin hchild hparent)
  rw [hchanged.outside sub hsub]
  exact h parent sub hchild hparent

theorem passed_down.add_command {parent sub : Ref} (h : passed_down Command.privileged tree)
    (hadd : tree.add_command stack parent sub = some tree') :
    passed_down Command.privileged tree' := by
  obtain ⟨second, third, hsecond, hthird, htree⟩ := add_command_steps hadd
  obtain ⟨change, hcommands, -, hprivileged, hensure⟩ := ensure_arguments_changed tree sub
  have hensured := h.keep hensure hcommands hprivileged
  have hpassed : passed_down Command.privileged second ∧
      ((second.command parent).privileged = true → (second.command sub).privileged = true) := by
    unfold pass_privilege at hsecond
    split_ifs at hsecond with hparent
    · have hchanged := set_privileged_changed hsecond
      refine ⟨hensured.set hchanged (fun _ => rfl) (fun _ => rfl), fun _ => ?_⟩
      rw [hchanged.inside sub .refl]
    · obtain rfl := Option.some.inj hsecond
      exact ⟨hensured, fun hmark => absurd hmark hparent⟩
  have hkept : passed_down Command.privileged third ∧
      ((third.command parent).privileged = true → (third.command sub).privileged = true) := by
    unfold pass_pre_hooks at hthird
    split_ifs at hthird
    · have hchanged := set_pre_hooks_changed hthird
      have hsame (ref : Ref) : (third.command ref).privileged = (second.command ref).privileged := by
        by_cases hset : second.reaches sub ref
        · rw [hchanged.inside ref hset]
        · rw [hchanged.outside ref hset]
      rw [hsame, hsame]
      exact ⟨hpassed.1.keep hchanged (fun _ => rfl) (fun _ => rfl), hpassed.2⟩
    · obtain rfl := Option.some.inj hthird
      exact hpassed
  rcases htree with rfl | rfl
  · exact hkept.1
  · exact hkept.1.attach (fun _ _ => rfl) hkept.2

theorem passed_down.build {op : Building} (h : passed_down Command.privileged tree)
    (hkeeps : tree.keeps_privilege op) (hbuild : tree.build stack op = some tree') :
    passed_down Command.privileged tree' := by
  cases op with
  | add_command parent sub => exact h.add_command hbuild
  | set_privileged command privileged =>
    cases privileged with
    | false => exact h.withdraw hkeeps hbuild
    | true => exact h.set (set_privileged_changed hbuild) (fun _ => rfl) (fun _ => rfl)
  | add_pre_command_hook hook =>
    have hadded : passed_down Command.privileged { tree with hooks := tree.hooks ++ [hook] } := h
    exact hadded.keep (set_pre_hooks_changed hbuild) (fun _ => rfl) (fun _ => rfl)

theorem Fresh.child (h : tree.Fresh) (parent sub : Ref) : ¬ tree.child parent sub := by
  rw [Tree.child, children, h.commands]
  simp

theorem Fresh.hooked (h : tree.Fresh) : Hooked tree :=
  ⟨by simp [h.pre_hooks], fun parent sub hchild => absurd hchild (h.child parent sub)⟩

theorem Fresh.passed_down (h : tree.Fresh) : passed_down mark tree :=
  fun parent sub hchild => absurd hchild (h.child parent sub)

end Tree

/-- The commands that a parse comes to are below the root. -/
theorem Reads.reaches {run : ℕ → ContextArgs → ℤ} {root last : Frame} {tokens rest : List Token}
    {items : List Item} (hreads : Reads (tree.program run) root tokens rest last items) :
    tree.reaches root.command last.command := by
  induction hreads with
  | start => exact .refl
  | item item _ _ _ _ ih =>
    rw [Item.apply_command]
    exact ih
  | @subcommand rest frame items word sub _ hsub ih =>
    refine ih.tail ?_
    unfold find_subcommand at hsub
    rcases hfind : ((frame.cmd (tree.program run)).commands.find? (·.1 = word)) with _ | entry
    · rw [hfind] at hsub
      dsimp only at hsub
      split at hsub
      · cases hsub
      next entry hone =>
        cases hsub
        have hmem : entry ∈ [entry] := List.mem_singleton_self entry
        rw [← hone] at hmem
        exact List.mem_map.mpr ⟨entry, (List.mem_filter.mp hmem).1, rfl⟩
      · cases hsub
    · rw [hfind] at hsub
      cases hsub
      exact List.mem_map.mpr ⟨entry, List.mem_of_find?_eq_some hfind, rfl⟩

/-- A handler runs only after all hooks have accepted its command, and unless privileges are
withdrawn below a privileged command, every command has those of the commands above it. -/
theorem hooks_fail_closed (hfresh : tree.Fresh) {trace : List (Tree × Tree.Building)}
    (hrun : Run (Tree.build stack) tree trace tree') (run : ℕ → ContextArgs → ℤ)
    {tokens : List Token} {outcome : Outcome}
    (h : parse_tokens (tree'.program run) tree'.root tokens = some outcome) :
    (∀ command args, .handler command args ∈ outcome.calls →
      ∃ hooks, outcome.calls = hooks ++ [.handler command args] ∧
        accepted (tree'.program run) command false hooks) ∧
    (Steps Tree.keeps_privilege trace →
      ∀ i command is_help_request, .hook i command is_help_request ∈ outcome.calls →
        ∀ above, tree'.reaches above command → (tree'.command above).privileged = true →
          (tree'.command command).privileged = true) := by
  constructor
  · intro command args hcall
    obtain ⟨last, items, hooks, hreads, hhandled, rfl⟩ := handler_of_call h hcall
    have hfree : Steps (fun _ _ => True) trace := fun _ _ => trivial
    have hhooked := hrun.invariant hfree hfresh.hooked fun hhooked _ hstep => hhooked.build hstep
    have hhooks := hhandled.hooks
    have hlast : (last.cmd (tree'.program run)).pre_hooks = true :=
      hhooked.down.reaches hreads.reaches hhooked.root
    rw [if_pos hlast] at hhooks
    exact ⟨hooks, hhandled.calls, hhooks⟩
  · intro hkeeps i command is_help_request _ above habove hprivileged
    have hdown := hrun.invariant hkeeps (I := Tree.passed_down Command.privileged)
      hfresh.passed_down fun hdown hkeeps hstep => hdown.build hkeeps hstep
    exact hdown.reaches habove hprivileged

/-- A root and a command `zap`, not attached yet. -/
def zap_tree : Tree where
  rt := ascii_runtime
  command ref := { example_command [] (if ref = 0 then none else some 0) with
    name := ascii.str (if ref = 0 then "zowex" else "zap")
    pre_hooks := decide (ref = 0) }
  json_registered _ := true
  root := 0
  hooks := []

def zap_building : List Tree.Building :=
  [.set_privileged 0 true, .add_command 0 1, .add_pre_command_hook fun _ _ _ => true]

def grants : Tree.Building → Bool
  | .set_privileged _ false => false
  | _ => true

theorem zap_fresh : zap_tree.Fresh :=
  ⟨fun _ => rfl, fun _ => rfl, fun _ => rfl, rfl⟩

/-- `zowex zap`, below a privileged root. -/
theorem hooks_fail_closed_zap :
    ∃ trace tree' outcome args, Run (Tree.build 3) zap_tree trace tree' ∧
      parse_tokens (tree'.program fun _ _ => 0) tree'.root [.TokId (ascii.str "zap")] =
        some outcome ∧
      .handler 1 args ∈ outcome.calls ∧
      (∃ hooks, outcome.calls = hooks ++ [.handler 1 args] ∧
        accepted (tree'.program fun _ _ => 0) 1 false hooks) ∧
      ∀ i command is_help_request, .hook i command is_help_request ∈ outcome.calls →
        ∀ above, tree'.reaches above command → (tree'.command above).privileged = true →
          (tree'.command command).privileged = true := by
  have hbuilt : ((exec (Tree.build 3) (fun _ op => grants op) zap_tree zap_building).any
      fun tree' => (parse_tokens (tree'.program fun _ _ => 0) tree'.root
        [.TokId (ascii.str "zap")]).any fun outcome => outcome.calls.any (is_handler_call 1)) =
          true := by decide +kernel
  obtain ⟨tree', hexec, hparse⟩ := (Option.any_eq_true _ _).mp hbuilt
  obtain ⟨outcome, houtcome, hcalls⟩ := (Option.any_eq_true _ _).mp hparse
  obtain ⟨args, hcall⟩ := handler_of_is_handler_call hcalls
  obtain ⟨trace, hrun, hgrants⟩ := run_of_exec hexec
  obtain ⟨haccepted, hprivileged⟩ := hooks_fail_closed zap_fresh hrun (fun _ _ => 0) houtcome
  refine ⟨trace, tree', outcome, args, hrun, houtcome, hcall, haccepted 1 args hcall,
    hprivileged fun step hstep => ?_⟩
  have hgrant := hgrants step hstep
  rcases step with ⟨tree, op⟩
  rcases op with _ | ⟨command, _ | _⟩ | _
  · trivial
  · cases hgrant
  · trivial
  · trivial

/-- The privilege of the root is not that of a command below it that it was taken from. -/
theorem privilege_withdrawn_below :
    (([Tree.Building.set_privileged 0 true, .add_command 0 1, .set_privileged 1 false,
        .add_pre_command_hook fun _ _ _ => true].foldlM (Tree.build 3) zap_tree).bind fun tree =>
      (parse_tokens (tree.program fun _ _ => 0) tree.root [.TokId (ascii.str "zap")]).map
        fun outcome => ((tree.command 0).privileged, tree.children 0,
          (tree.command 1).privileged, outcome.calls.map (is_handler_call 1))) =
      some (true, [1], false, [false, true]) := by
  decide +kernel

end Zowex.parser
