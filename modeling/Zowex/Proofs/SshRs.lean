import Mathlib.Data.List.TakeWhile
import Zowex.Lib.Runs
import Zowex.Spec.SshRs

/-! When the SSH client emits `ready` and `close` in order, and when its channels deliver what
arrives. -/

namespace Zowex.sdk.ssh_rs

open Runs

namespace Client

variable {c c' : Client} {e : Event}

/-- What an event does to the connection and to what is emitted. -/
inductive Effect (c : Client) (e : Event) (c' : Client) : Prop
  | quiet : c'.ssh_client = c.ssh_client → c'.closed = c.closed →
      (c'.emitted = c.emitted ∨ c'.emitted = c.emitted ++ [.error]) → Effect c e c'
  | close : c'.ssh_client = none → c.closed = false → c'.closed = true →
      c'.emitted = c.emitted ++ [.close] → Effect c e c'
  | again : c'.ssh_client = none → c.closed = true → c'.closed = true →
      c'.emitted = c.emitted → Effect c e c'
  | ready (k : ℕ) : e = .connect_async k true → c.connects[k]? = some .authenticate →
      c'.ssh_client = some k → c'.closed = c.closed → c'.emitted = c.emitted ++ [.ready] →
      Effect c e c'

theorem cleanup_effect (c : Client) (e : Event) : Effect c e c.cleanup.emit_close := by
  have hsame : c.cleanup.closed = c.closed := rfl
  unfold emit_close
  rw [hsame]
  by_cases hclosed : c.closed = true
  · rw [if_pos hclosed]
    exact .again rfl hclosed hclosed rfl
  · rw [if_neg hclosed]
    rw [Bool.not_eq_true] at hclosed
    exact .close rfl hclosed rfl rfl

theorem connect_async_effect {k : ℕ} {ok : Bool} (h : c.connect_async k ok = some c') :
    Effect c (.connect_async k ok) c' := by
  unfold connect_async at h
  split at h
  · cases h
    exact .quiet rfl rfl (.inl rfl)
  · cases h
    exact .quiet rfl rfl (.inl rfl)
  next hstage =>
    cases h
    exact .ready k rfl hstage rfl rfl rfl
  · cases h
    exact .quiet rfl rfl (.inr rfl)
  · cases h
    exact .quiet rfl rfl (.inr rfl)
  · cases h
    exact .quiet rfl rfl (.inr rfl)
  · cases h

theorem exec_async_effect {k : ℕ} {ok : Bool} (h : c.exec_async k ok = some c') :
    Effect c (.exec_async k ok) c' := by
  unfold exec_async at h
  split at h
  · split_ifs at h
    · cases h
      exact .quiet rfl rfl (.inl rfl)
    · cases h
      exact .quiet rfl rfl (.inl rfl)
  · cases h
    exact .quiet rfl rfl (.inl rfl)
  · cases h
    exact .quiet rfl rfl (.inl rfl)
  · cases h

theorem step_effect (h : c.step e = some c') : Effect c e c' := by
  cases e with
  | connect =>
    cases h
    unfold connect
    split_ifs
    · exact .quiet rfl rfl (.inl rfl)
    · exact .quiet rfl rfl (.inl rfl)
  | connect_async k ok => exact connect_async_effect h
  | disconnected k =>
    cases h
    unfold disconnected
    split_ifs
    · exact cleanup_effect c _
    · exact .quiet rfl rfl (.inl rfl)
  | end_ =>
    cases h
    exact cleanup_effect c _
  | exec =>
    cases h
    unfold exec
    split_ifs
    · exact .quiet rfl rfl (.inl rfl)
    · exact .quiet rfl rfl (.inl rfl)
  | exec_async k ok => exact exec_async_effect h

/-- What holds however the events come. -/
structure Emits (c : Client) : Prop where
  close_once : c.emitted.count .close = if c.closed then 1 else 0
  ready : c.ssh_client ≠ none → .ready ∈ c.emitted

theorem Emits.step (h : Emits c) (hstep : c.step e = some c') : Emits c' := by
  obtain ⟨honce, hready⟩ := h
  rcases step_effect hstep with ⟨hclient, hclosed, hemitted⟩ |
    ⟨hclient, hopen, hclosed, hemitted⟩ | ⟨hclient, hopen, hclosed, hemitted⟩ |
    ⟨k, -, -, hclient, hclosed, hemitted⟩
  · rcases hemitted with hemitted | hemitted
    · exact ⟨by rw [hemitted, hclosed, honce], by rwa [hclient, hemitted]⟩
    · refine ⟨by rw [hemitted, List.count_append, hclosed, honce]; rfl, fun hne => ?_⟩
      rw [hclient] at hne
      exact hemitted ▸ List.mem_append_left _ (hready hne)
  · refine ⟨?_, fun hne => absurd hclient hne⟩
    rw [hemitted, List.count_append, honce, hopen, hclosed]
    rfl
  · refine ⟨?_, fun hne => absurd hclient hne⟩
    rw [hemitted, honce, hopen, hclosed]
  · refine ⟨?_, fun _ => hemitted ▸ by simp⟩
    rw [hemitted, List.count_append, hclosed, honce]
    rfl

theorem Emits.mem_close (h : Emits c) : .close ∈ c.emitted ↔ c.closed = true := by
  rw [← List.count_pos_iff, h.close_once]
  split_ifs with hclosed <;> simp [hclosed]

/-- What is emitted while connections are authenticated in time. -/
structure InTime (c : Client) : Prop where
  ready_once : c.emitted.count .ready ≤ 1
  ready : c.closed = false → c.ssh_client = none → .ready ∉ c.emitted
  ready_before_close : ¬ List.Sublist [.close, .ready] c.emitted
  closed : c.closed = true → c.ssh_client = none

theorem not_sublist_snoc {emitted : List Emitted} {last : Emitted}
    (h : ¬ List.Sublist [.close, .ready] emitted) (hlast : last = .ready → .close ∉ emitted) :
    ¬ List.Sublist [.close, .ready] (emitted ++ [last]) := by
  intro hsub
  rw [← List.reverse_sublist, List.reverse_append] at hsub
  rcases List.sublist_cons_iff.mp hsub with hold | ⟨tail, htail, hclose⟩
  · exact h (List.reverse_sublist.mp hold)
  · obtain ⟨hready, rfl⟩ := List.cons.inj htail
    exact hlast hready.symm (List.mem_reverse.mp (List.singleton_sublist.mp hclose))

theorem InTime.step (h : InTime c) (hemits : Emits c) (htime : c.in_time e)
    (hstep : c.step e = some c') : InTime c' := by
  obtain ⟨honce, hready, hbefore, hclosed⟩ := h
  rcases step_effect hstep with ⟨hclient, hsame, hemitted⟩ | ⟨hclient, hopen, hnow, hemitted⟩ |
    ⟨hclient, hwas, hnow, hemitted⟩ | ⟨k, rfl, hstage, hclient, hsame, hemitted⟩
  · rcases hemitted with hemitted | hemitted
    · refine ⟨?_, ?_, ?_, ?_⟩
      · rwa [hemitted]
      · rwa [hsame, hclient, hemitted]
      · rwa [hemitted]
      · rwa [hsame, hclient]
    · refine ⟨?_, ?_, ?_, ?_⟩
      · rw [hemitted, List.count_append]
        exact honce
      · rw [hsame, hclient, hemitted]
        intro hopen hnone
        simpa using hready hopen hnone
      · rw [hemitted]
        exact not_sublist_snoc hbefore (by simp)
      · rwa [hsame, hclient]
  · refine ⟨?_, ?_, ?_, fun _ => hclient⟩
    · rw [hemitted, List.count_append]
      exact honce
    · intro hstill
      rw [hnow] at hstill
      cases hstill
    · rw [hemitted]
      exact not_sublist_snoc hbefore (by simp)
  · refine ⟨?_, ?_, ?_, fun _ => hclient⟩
    · rwa [hemitted]
    · intro hstill
      rw [hnow] at hstill
      cases hstill
    · rwa [hemitted]
  · obtain ⟨hopen, hnone⟩ := htime hstage
    have hnever := hready hopen hnone
    have hunclosed : .close ∉ c.emitted := by
      rw [hemits.mem_close, hopen]
      simp
    refine ⟨?_, ?_, ?_, ?_⟩
    · rw [hemitted, List.count_append, List.count_eq_zero.mpr hnever]
      decide
    · intro _ hno
      rw [hclient] at hno
      cases hno
    · rw [hemitted]
      exact not_sublist_snoc hbefore fun _ => hunclosed
    · intro hnow
      rw [hsame, hopen] at hnow
      cases hnow

end Client

/-! The channel. -/

theorem stdout_bytes_append (events later : List ChannelEvent) :
    stdout_bytes (events ++ later) = stdout_bytes events ++ stdout_bytes later :=
  List.flatMap_append

theorem stderr_bytes_append (events later : List ChannelEvent) :
    stderr_bytes (events ++ later) = stderr_bytes events ++ stderr_bytes later :=
  List.flatMap_append

theorem stdout_pushed_append (delivered later : List Delivered) :
    stdout_pushed (delivered ++ later) = stdout_pushed delivered ++ stdout_pushed later :=
  List.flatMap_append

theorem stderr_pushed_append (delivered later : List Delivered) :
    stderr_pushed (delivered ++ later) = stderr_pushed delivered ++ stderr_pushed later :=
  List.flatMap_append

theorem takeWhile_not_snoc {α : Type*} (p : α → Bool) (xs : List α) (x : α) :
    (xs ++ [x]).takeWhile (fun y => !p y) =
      if xs.any p then xs.takeWhile (fun y => !p y)
      else if p x then xs else xs ++ [x] := by
  have hall : xs.takeWhile (fun y => !p y) = xs ↔ ¬ xs.any p = true := by
    rw [List.takeWhile_eq_self_iff]
    simp
  rw [List.takeWhile_append]
  by_cases hany : xs.any p = true
  · have hne := mt hall.mp (not_not.mpr hany)
    have hlength := mt (List.takeWhile_prefix _).eq_of_length hne
    rw [if_pos hany, if_neg hlength]
  · rw [if_neg hany, hall.mpr hany, if_pos rfl]
    by_cases hx : p x = true <;> simp [hx]

theorem find_snoc_of_any {α : Type*} {p : α → Bool} {xs : List α} (x : α)
    (h : xs.any p = true) : (xs ++ [x]).find? p = xs.find? p := by
  have hsome : (xs.find? p).isSome = true := by simpa using h
  rw [List.find?_append, Option.or_of_isSome hsome]

theorem find_snoc_of_not_any {α : Type*} {p : α → Bool} {xs : List α} (x : α)
    (h : xs.any p = false) : (xs ++ [x]).find? p = if p x then some x else none := by
  have hnone : xs.find? p = none := by simpa using h
  rw [List.find?_append, hnone, Option.none_or]
  by_cases hx : p x = true <;> simp [hx]

/-- What arrives on `stdout` until it ends. -/
theorem stdout_arrived (events : List ChannelEvent) (e : ChannelEvent) :
    stdout_bytes ((events ++ [e]).takeWhile fun e => !ends_stdout e) =
      stdout_bytes (events.takeWhile fun e => !ends_stdout e) ++
        if events.any ends_stdout then [] else stdout_bytes [e] := by
  rw [takeWhile_not_snoc]
  by_cases hany : events.any ends_stdout = true
  · rw [if_pos hany, if_pos hany, List.append_nil]
  · have hall : events.takeWhile (fun e => !ends_stdout e) = events := by
      rw [List.takeWhile_eq_self_iff]
      simpa using hany
    rw [if_neg hany, if_neg hany, hall]
    by_cases hends : ends_stdout e = true
    · have hnone : stdout_bytes [e] = [] := by
        cases e <;> first | rfl | cases hends
      rw [if_pos hends, hnone, List.append_nil]
    · rw [if_neg hends, stdout_bytes_append]

theorem stderr_arrived (events : List ChannelEvent) (e : ChannelEvent) :
    stderr_bytes ((events ++ [e]).takeWhile fun e => !ends_stderr e) =
      stderr_bytes (events.takeWhile fun e => !ends_stderr e) ++
        if events.any ends_stderr then [] else stderr_bytes [e] := by
  rw [takeWhile_not_snoc]
  by_cases hany : events.any ends_stderr = true
  · rw [if_pos hany, if_pos hany, List.append_nil]
  · have hall : events.takeWhile (fun e => !ends_stderr e) = events := by
      rw [List.takeWhile_eq_self_iff]
      simpa using hany
    rw [if_neg hany, if_neg hany, hall]
    by_cases hends : ends_stderr e = true
    · have hnone : stderr_bytes [e] = [] := by
        cases e <;> first | rfl | cases hends
      rw [if_pos hends, hnone, List.append_nil]
    · rw [if_neg hends, stderr_bytes_append]

/-- A channel after some events. -/
structure After (events : List ChannelEvent) (c : ClientChannel) : Prop where
  ended : c.ended = events.any cleans_up
  stdout_done : c.stdout_done = events.any ends_stdout
  stderr_done : c.stderr_done = events.any ends_stderr
  stdout : stdout_pushed c.delivered = stdout_bytes (events.takeWhile fun e => !ends_stdout e)
  stderr : stderr_pushed c.delivered = stderr_bytes (events.takeWhile fun e => !ends_stderr e)
  close : if events.find? cleans_up = some .closed
    then ∃ before, c.delivered = before ++ [.close] ∧ .close ∉ before
    else .close ∉ c.delivered

theorem After.start : After [] ClientChannel.start :=
  ⟨rfl, rfl, rfl, rfl, rfl, by simp [ClientChannel.start]⟩

/-- After a clean-up nothing changes. -/
theorem After.on_ended {events : List ChannelEvent} {c : ClientChannel} (h : After events c)
    (e : ChannelEvent) (hended : c.ended = true) : After (events ++ [e]) (c.on e) := by
  have hclean : events.any cleans_up = true := h.ended ▸ hended
  obtain ⟨first, hfirst, hcleans⟩ := List.any_eq_true.mp hclean
  have hout : events.any ends_stdout = true :=
    List.any_eq_true.mpr ⟨first, hfirst, by simp [ends_stdout, hcleans]⟩
  have herr : events.any ends_stderr = true :=
    List.any_eq_true.mpr ⟨first, hfirst, by simp [ends_stderr, hcleans]⟩
  have hsame : c.on e = c := by
    unfold ClientChannel.on
    rw [if_pos hended]
  rw [hsame]
  refine ⟨?_, ?_, ?_, ?_, ?_, ?_⟩
  · rw [List.any_append, hclean, hended, Bool.true_or]
  · rw [List.any_append, hout, h.stdout_done, hout, Bool.true_or]
  · rw [List.any_append, herr, h.stderr_done, herr, Bool.true_or]
  · rw [stdout_arrived, if_pos hout, List.append_nil, h.stdout]
  · rw [stderr_arrived, if_pos herr, List.append_nil, h.stderr]
  · rw [find_snoc_of_any e hclean]
    exact h.close

/-! An event on an open channel. -/

section

variable {c : ClientChannel} (hopen : c.ended = false) (e : ChannelEvent)

include hopen

theorem ended_on : (c.on e).ended = cleans_up e := by
  unfold ClientChannel.on ClientChannel.cleanup
  rw [hopen]
  cases e with
  | data bytes =>
    by_cases hdone : c.stdout_done = true <;>
      simp [hdone, hopen, cleans_up, ClientChannel.deliver]
  | extended_data type bytes =>
    by_cases hread : (type = 1 && !c.stderr_done) = true <;>
      simp [hread, hopen, cleans_up, ClientChannel.deliver]
  | _ => simp [cleans_up, ClientChannel.deliver]

theorem stdout_done_on : (c.on e).stdout_done = (c.stdout_done || ends_stdout e) := by
  unfold ClientChannel.on ClientChannel.cleanup
  rw [hopen]
  cases e with
  | data bytes =>
    by_cases hdone : c.stdout_done = true <;>
      simp [hdone, ends_stdout, cleans_up, ClientChannel.deliver]
  | extended_data type bytes =>
    by_cases hread : (type = 1 && !c.stderr_done) = true <;>
      simp [hread, ends_stdout, cleans_up, ClientChannel.deliver]
  | _ => simp [ends_stdout, cleans_up, ClientChannel.deliver]

theorem stderr_done_on : (c.on e).stderr_done = (c.stderr_done || ends_stderr e) := by
  unfold ClientChannel.on ClientChannel.cleanup
  rw [hopen]
  cases e with
  | data bytes =>
    by_cases hdone : c.stdout_done = true <;>
      simp [hdone, ends_stderr, cleans_up, ClientChannel.deliver]
  | extended_data type bytes =>
    by_cases hread : (type = 1 && !c.stderr_done) = true <;>
      simp [hread, ends_stderr, cleans_up, ClientChannel.deliver]
  | _ => simp [ends_stderr, cleans_up, ClientChannel.deliver]

/-- What an open channel delivers for an event. -/
theorem delivered_on :
    (c.on e).delivered = c.delivered ++ match e with
      | .data bytes => if c.stdout_done then [] else [.stdout bytes]
      | .extended_data type bytes => if type = 1 && !c.stderr_done then [.stderr bytes] else []
      | .closed => [.close]
      | _ => [] := by
  unfold ClientChannel.on ClientChannel.cleanup
  rw [hopen]
  cases e with
  | data bytes => by_cases hdone : c.stdout_done = true <;> simp [hdone, ClientChannel.deliver]
  | extended_data type bytes =>
    by_cases hread : (type = 1 && !c.stderr_done) = true <;> simp [hread, ClientChannel.deliver]
  | _ => simp [ClientChannel.deliver]

theorem stdout_pushed_on : stdout_pushed (c.on e).delivered =
    stdout_pushed c.delivered ++ if c.stdout_done then [] else stdout_bytes [e] := by
  rw [delivered_on hopen, stdout_pushed_append]
  cases e with
  | data bytes =>
    by_cases hdone : c.stdout_done = true <;>
      simp [hdone, stdout_pushed, stdout_bytes]
  | extended_data type bytes =>
    by_cases hread : (type = 1 && !c.stderr_done) = true <;>
      simp [hread, stdout_pushed, stdout_bytes]
  | _ => simp [stdout_pushed, stdout_bytes]

theorem stderr_pushed_on : stderr_pushed (c.on e).delivered =
    stderr_pushed c.delivered ++ if c.stderr_done then [] else stderr_bytes [e] := by
  rw [delivered_on hopen, stderr_pushed_append]
  cases e with
  | data bytes =>
    by_cases hdone : c.stdout_done = true <;>
      simp [hdone, stderr_pushed, stderr_bytes]
  | extended_data type bytes =>
    by_cases htype : type = 1
    · subst htype
      by_cases hdone : c.stderr_done = true <;> simp [hdone, stderr_pushed, stderr_bytes]
    · simp [htype, stderr_pushed, stderr_bytes]
  | _ => simp [stderr_pushed, stderr_bytes]

theorem close_on (hno : .close ∉ c.delivered) :
    if e = .closed then (c.on e).delivered = c.delivered ++ [.close]
    else .close ∉ (c.on e).delivered := by
  rw [delivered_on hopen]
  cases e with
  | data bytes => by_cases hdone : c.stdout_done = true <;> simp [hdone, hno]
  | extended_data type bytes =>
    by_cases hread : (type = 1 && !c.stderr_done) = true <;> simp [hread, hno]
  | _ => simp [hno]

end

theorem After.on {events : List ChannelEvent} {c : ClientChannel} (h : After events c)
    (e : ChannelEvent) : After (events ++ [e]) (c.on e) := by
  by_cases hended : c.ended = true
  · exact h.on_ended e hended
  have hopen : c.ended = false := by simpa using hended
  have hclean : events.any cleans_up = false := h.ended ▸ hopen
  have hno : .close ∉ c.delivered := by
    have hclose := h.close
    have hfind : events.find? cleans_up = none := by simpa using hclean
    rwa [hfind, if_neg (by simp)] at hclose
  refine ⟨?_, ?_, ?_, ?_, ?_, ?_⟩
  · rw [ended_on hopen, List.any_append, hclean]
    simp
  · rw [stdout_done_on hopen, List.any_append, h.stdout_done]
    simp
  · rw [stderr_done_on hopen, List.any_append, h.stderr_done]
    simp
  · rw [stdout_pushed_on hopen, stdout_arrived, h.stdout, h.stdout_done]
  · rw [stderr_pushed_on hopen, stderr_arrived, h.stderr, h.stderr_done]
  · have hclose := close_on hopen e hno
    rw [find_snoc_of_not_any e hclean]
    by_cases he : e = .closed
    · rw [if_pos he] at hclose
      subst he
      exact ⟨c.delivered, hclose, hno⟩
    · rw [if_neg he] at hclose
      rwa [if_neg]
      split_ifs
      · simpa using he
      · simp

theorem after (events : List ChannelEvent) :
    After events (events.foldl ClientChannel.on ClientChannel.start) := by
  induction events using List.reverseRecOn with
  | nil => exact After.start
  | append_singleton events e ih =>
    rw [List.foldl_append]
    exact ih.on e

/-- A channel delivers every byte, and the close of the remote side after them, just when no byte
arrives after its stream has ended and the first clean-up is the one of that close. -/
theorem faithful_iff_uninterrupted (events : List ChannelEvent) :
    Faithful events (events.foldl ClientChannel.on ClientChannel.start).delivered ↔
      Uninterrupted events := by
  have h := after events
  have hout : stdout_bytes events = stdout_bytes (events.takeWhile fun e => !ends_stdout e) ++
      stdout_bytes (events.dropWhile fun e => !ends_stdout e) := by
    rw [← stdout_bytes_append, List.takeWhile_append_dropWhile]
  have herr : stderr_bytes events = stderr_bytes (events.takeWhile fun e => !ends_stderr e) ++
      stderr_bytes (events.dropWhile fun e => !ends_stderr e) := by
    rw [← stderr_bytes_append, List.takeWhile_append_dropWhile]
  have hclose := h.close
  constructor
  · intro hfaithful
    refine ⟨?_, ?_, fun hclosed => ?_⟩
    · have heq := hfaithful.stdout
      rw [h.stdout, hout] at heq
      exact List.self_eq_append_right.mp heq
    · have heq := hfaithful.stderr
      rw [h.stderr, herr] at heq
      exact List.self_eq_append_right.mp heq
    · by_contra hother
      rw [if_neg hother] at hclose
      obtain ⟨before, heq, -⟩ := hfaithful.close hclosed
      exact hclose (heq ▸ List.mem_append_right _ (List.mem_singleton_self _))
  · intro hevents
    refine ⟨?_, ?_, fun hclosed => ?_⟩
    · rw [h.stdout, hout, hevents.stdout, List.append_nil]
    · rw [h.stderr, herr, hevents.stderr, List.append_nil]
    · rwa [if_pos (hevents.close hclosed)] at hclose

/-- The remote side closes the channel after the end of its output. -/
theorem close_lost_after_eof : ¬ Faithful [.eof, .closed]
    ([.eof, .closed].foldl ClientChannel.on ClientChannel.start).delivered := by
  intro h
  obtain ⟨before, heq, -⟩ := h.close (by decide)
  have hnone : ([ChannelEvent.eof, .closed].foldl ClientChannel.on ClientChannel.start).delivered =
      [] := rfl
  rw [hnone] at heq
  exact List.append_ne_nil_of_right_ne_nil before (by simp) heq.symm

end Zowex.sdk.ssh_rs
