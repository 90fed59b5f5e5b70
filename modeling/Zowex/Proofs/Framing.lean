import Zowex.Spec.SshClient

/-! The chunks that `onOutData` receives are cut back into lines. The lines are the ones the
server wrote, whatever the chunks, as long as no chunk starts inside a character. -/

namespace Zowex.sdk

open Utf8 Lines

namespace ZSshClient

variable {R : Type} (parse : List Char → Option (Message R))

def with_stdout (c : ZSshClient R) (rest : List Char) : ZSshClient R :=
  { c with partial_stdout := rest }

theorem find_with_stdout (c : ZSshClient R) (rest : List Char) (id : Option RpcId) :
    (c.with_stdout rest).find id = c.find id := by
  rcases id with _ | _ | _
  · rfl
  · rfl
  · rfl

theorem link_with_stdout (c : ZSshClient R) (rest : List Char) (id : ℕ) (usable : Stream → Bool) :
    (c.with_stdout rest).link_stream_to_promise id usable =
      (c.link_stream_to_promise id usable).map (·.with_stdout rest) := by
  rcases hpending : c.pending_streams.find? (·.id = id) with _ | ⟨_, _ | ⟨stream, later⟩⟩
  · simp only [link_stream_to_promise, with_stdout, hpending, Option.map_none]
  · simp only [link_stream_to_promise, with_stdout, hpending, Option.map_some]
  · simp only [link_stream_to_promise, with_stdout, hpending]
    split_ifs
    · rfl
    · rfl

theorem handle_notification_with_stdout (c : ZSshClient R) (rest : List Char) (method : String)
    (params_id : Option RpcId) : (c.with_stdout rest).handle_notification method params_id =
      (c.handle_notification method params_id).with_stdout rest := by
  simp only [handle_notification, find_with_stdout, link_with_stdout]
  rcases c.find params_id with _ | request
  · rfl
  · dsimp only
    split_ifs
    · rcases c.link_stream_to_promise request.id (·.writable) with _ | _ <;> rfl
    · rcases c.link_stream_to_promise request.id (·.readable) with _ | _ <;> rfl
    · rfl

theorem handle_response_with_stdout (c : ZSshClient R) (rest : List Char)
    (request : ExistingClientRequest) (error : Option R) (result : R) :
    (c.with_stdout rest).handle_response request error result =
      (c.handle_response request error result).with_stdout rest := by
  unfold handle_response
  rcases error with _ | error
  · split_ifs <;> rfl
  · split_ifs <;> rfl

theorem on_message_with_stdout (c : ZSshClient R) (rest : List Char) (m : Message R) :
    (c.with_stdout rest).on_message m = (c.on_message m).with_stdout rest := by
  rcases m with ⟨id, error, result⟩ | ⟨id, method, params_id⟩
  · simp only [on_message, find_with_stdout]
    rcases c.find (some id) with _ | request
    · rfl
    · exact c.handle_response_with_stdout rest request error result
  · simp only [on_message, find_with_stdout]
    rcases c.find (id.or params_id) with _ | request
    · rfl
    · exact c.handle_notification_with_stdout rest method params_id

/-- A line neither reads nor changes what is buffered. -/
theorem on_line_with_stdout (c : ZSshClient R) (rest line : List Char) :
    (c.with_stdout rest).on_line parse line = (c.on_line parse line).with_stdout rest := by
  unfold on_line
  split_ifs
  · rfl
  · rcases parse line with _ | m
    · rfl
    · exact c.on_message_with_stdout rest m

theorem lines_with_stdout (c : ZSshClient R) (rest : List Char) (lines : List (List Char)) :
    lines.foldl (on_line parse) (c.with_stdout rest) =
      (lines.foldl (on_line parse) c).with_stdout rest := by
  induction lines generalizing c with
  | nil => rfl
  | cons line lines ih => rw [List.foldl_cons, List.foldl_cons, on_line_with_stdout, ih]

end ZSshClient

/-- The lines that chunks end, after what is buffered, and what is buffered then. -/
def received (buffered : List Char) : List (List UInt8) → List (List Char) × List Char
  | [] => ([], buffered)
  | chunk :: chunks =>
    let data := buffered ++ decode chunk
    let later := received (unfinished '\n' data) chunks
    (complete '\n' data ++ later.1, later.2)

/-- The responses and notifications that chunks bring to a new client. -/
def dispatched {R : Type} (parse : List Char → Option (Message R)) (chunks : List (List UInt8)) :
    List (Message R) :=
  ((received [] chunks).1.filter (· ≠ [])).filterMap parse

theorem on_out_data_chunks {R : Type} (parse : List Char → Option (Message R)) (c : ZSshClient R)
    (chunks : List (List UInt8)) :
    chunks.foldl (ZSshClient.on_out_data parse) c =
      ((received c.partial_stdout chunks).1.foldl (ZSshClient.on_line parse) c).with_stdout
        (received c.partial_stdout chunks).2 := by
  induction chunks generalizing c with
  | nil => rfl
  | cons chunk chunks ih =>
    rw [List.foldl_cons, ih]
    have hdata : c.on_out_data parse chunk =
        ((complete '\n' (c.partial_stdout ++ decode chunk)).foldl
          (ZSshClient.on_line parse) c).with_stdout
            (unfinished '\n' (c.partial_stdout ++ decode chunk)) := rfl
    rw [hdata, ZSshClient.lines_with_stdout, received, List.foldl_append]
    rfl

/-- The lines depend on the decoded text only. -/
theorem received_eq (text : List Char) (chunks : List (List UInt8)) :
    complete '\n' (text ++ chunks.flatMap decode) =
        complete '\n' text ++ (received (unfinished '\n' text) chunks).1 ∧
      unfinished '\n' (text ++ chunks.flatMap decode) =
        (received (unfinished '\n' text) chunks).2 := by
  induction chunks generalizing text with
  | nil => simp [received]
  | cons chunk chunks ih =>
    obtain ⟨hcomplete, hunfinished⟩ := ih (text ++ decode chunk)
    rw [List.flatMap_cons, ← List.append_assoc, hcomplete, hunfinished, complete_append,
      unfinished_append, received, List.append_assoc]
    exact ⟨rfl, rfl⟩

theorem received_nil (chunks : List (List UInt8)) :
    received [] chunks =
      (complete '\n' (chunks.flatMap decode), unfinished '\n' (chunks.flatMap decode)) := by
  obtain ⟨hcomplete, hunfinished⟩ := received_eq [] chunks
  rw [unfinished_nil] at hcomplete hunfinished
  exact Prod.ext hcomplete.symm hunfinished.symm

/-- Each line as a chunk of its own. -/
def line_chunks (lines : List (List Char)) : List (List UInt8) :=
  lines.map fun line => encode (line ++ ['\n'])

theorem decode_line_chunks (lines : List (List Char)) :
    (line_chunks lines).flatMap decode = lines.flatMap (· ++ ['\n']) := by
  simp only [line_chunks, List.flatMap_map, decode_encode]

theorem received_line_chunks {lines : List (List Char)} (h : ∀ line ∈ lines, '\n' ∉ line) :
    received [] (line_chunks lines) = (lines, []) := by
  obtain ⟨hcomplete, hunfinished⟩ := complete_terminated h
  rw [received_nil, decode_line_chunks, hcomplete, hunfinished]

theorem unfinished_of_getLast? {text : List Char} (h : text.getLast? = some '\n' ∨ text = []) :
    unfinished '\n' text = [] := by
  rcases h with h | rfl
  · obtain ⟨front, rfl⟩ := List.getLast?_eq_some_iff.mp h
    exact unfinished_separator '\n' front
  · exact unfinished_nil '\n'

theorem getLast?_terminated (lines : List (List Char)) :
    (lines.flatMap (· ++ ['\n'])).getLast? = some '\n' ∨ lines.flatMap (· ++ ['\n']) = [] := by
  rcases List.eq_nil_or_concat lines with rfl | ⟨front, line, rfl⟩
  · exact .inr rfl
  · refine .inl ?_
    rw [List.concat_eq_append, List.flatMap_append, List.flatMap_singleton, ← List.append_assoc,
      List.getLast?_append, List.getLast?_singleton]
    rfl

/-- Other lines come out where a character was lost. -/
theorem garbled_lines {lines : List (List Char)} {garbled : List Char}
    (h : ∀ line ∈ lines, '\n' ∉ line) (hgarbled : Garbled (lines.flatMap (· ++ ['\n'])) garbled)
    (hsame : (complete '\n' garbled).filter (· ≠ []) = lines.filter (· ≠ [])) :
    garbled = lines.flatMap (· ++ ['\n']) := by
  have hend : unfinished '\n' garbled = [] := by
    rcases getLast?_terminated lines with hlast | hnil
    · exact unfinished_of_getLast? (.inl (hgarbled.getLast? (by decide +kernel) hlast))
    · rw [hnil] at hgarbled
      cases hgarbled
      exact unfinished_nil '\n'
  have hflat (l : List (List Char)) : (l.filter (· ≠ [])).flatten = l.flatten := by
    induction l with
    | nil => rfl
    | cons piece l ih =>
      rcases piece with _ | ⟨c, piece⟩
      · simpa using ih
      · rw [List.filter_cons_of_pos (by simp), List.flatten_cons, ih, List.flatten_cons]
  have hlines : lines.flatten = (lines.flatMap (· ++ ['\n'])).filter (! · == '\n') := by
    rw [← complete_flatten (complete_terminated h).2, (complete_terminated h).1]
  refine hgarbled.eq_of_length_filter_le (p := (! · == '\n')) (by decide) ?_
  rw [← hlines, ← complete_flatten hend, ← hflat, hsame, hflat]

/-- Both ways a new client gets the same messages, and a client that buffers nothing ends up in
the same state, whatever `JSON.parse` makes of a line. -/
def SameDispatch (chunks chunks' : List (List UInt8)) : Prop :=
  ∀ (R : Type) (parse : List Char → Option (Message R)),
    dispatched parse chunks = dispatched parse chunks' ∧
      ∀ c : ZSshClient R, c.partial_stdout = [] →
        chunks.foldl (ZSshClient.on_out_data parse) c =
          chunks'.foldl (ZSshClient.on_out_data parse) c

theorem same_dispatch_of_received {chunks chunks' : List (List UInt8)}
    (h : received [] chunks = received [] chunks') : SameDispatch chunks chunks' := by
  intro R parse
  refine ⟨by rw [dispatched, dispatched, h], fun c hc => ?_⟩
  rw [on_out_data_chunks, on_out_data_chunks, hc, h]

/-- The chunks of a stream of lines give what the lines give one by one if no chunk starts inside
a character, and only then. -/
theorem same_dispatch_iff {lines : List (List Char)} {chunks : List (List UInt8)}
    (hlines : ∀ line ∈ lines, '\n' ∉ line)
    (hchunks : chunks.flatten = (line_chunks lines).flatten) :
    SameDispatch chunks (line_chunks lines) ↔ ∀ chunk ∈ chunks, starts_inside chunk = false := by
  have hstream : chunks.flatten = encode (lines.flatMap (· ++ ['\n'])) := by
    rw [hchunks, encode, List.flatMap_assoc]
    rfl
  obtain ⟨hgarbled, hwhole⟩ := decode_chunks hstream
  rw [← hwhole]
  constructor
  · intro h
    refine garbled_lines hlines hgarbled ?_
    -- messages that carry their line
    let message (line : List Char) : Message (List Char) := .response .other none line
    have hsame := (h (List Char) (some ∘ message)).1
    rw [dispatched, dispatched, received_line_chunks hlines, received_nil,
      List.filterMap_eq_map] at hsame
    refine List.map_injective_iff.mpr ?_ hsame
    intro line line' hmessage
    injection hmessage
  · intro h
    refine same_dispatch_of_received ?_
    rw [received_nil, h, received_line_chunks hlines, (complete_terminated hlines).1,
      (complete_terminated hlines).2]

theorem same_dispatch_iff_cut :
    SameDispatch [[0xC3], [0xA9, 0x0A]] (line_chunks [['é']]) ↔
      ∀ chunk ∈ [[0xC3], [0xA9, 0x0A]], starts_inside chunk = false :=
  same_dispatch_iff (by decide) (by decide +kernel)

/-- A response to the first request. -/
def result_line (text : List Char) : List Char :=
  "\x7b\"id\":1,\"result\":\"".toList ++ text ++ "\"\x7d".toList

def parse_result (line : List Char) : Option (Message (List Char)) :=
  let text := (line.drop ((result_line []).length - 2)).dropLast.dropLast
  if result_line text = line then some (.response (.number 1) none text) else none

def two_chunks (n : ℕ) (line : List Char) : List (List UInt8) :=
  [(encode (line ++ ['\n'])).take n, (encode (line ++ ['\n'])).drop n]

/-- The promise is resolved with two replacement characters for the one that was cut. -/
theorem cut_character_lost :
    (two_chunks 19 (result_line ['é'])).flatten = (line_chunks [result_line ['é']]).flatten ∧
      ((line_chunks [result_line ['é']]).foldl (ZSshClient.on_out_data parse_result)
        (ZSshClient.start.request true none)).settled = [.resolve 1 ['é']] ∧
      ((two_chunks 19 (result_line ['é'])).foldl (ZSshClient.on_out_data parse_result)
        (ZSshClient.start.request true none)).settled = [.resolve 1 ['\uFFFD', '\uFFFD']] := by
  refine ⟨?_, ?_, ?_⟩
  · decide +kernel
  · decide +kernel
  · decide +kernel

end Zowex.sdk
