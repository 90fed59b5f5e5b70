import Zowex.Proofs.Wildcards
import Zowex.Spec.MemberList

/-! The walk over a directory: what it lists, in which order, and how it ends. -/

namespace Zowex.zds

open Globs

/-! Directories. -/

/-- The name with blanks after it. -/
def padded_name (cs : Charset) (name : Bytes) : Bytes :=
  name ++ List.replicate (8 - name.length) (cs.code ' ')

/-- The entry of a member, with its user data. -/
structure Member (cs : Charset) where
  name : Bytes
  ttr : Bytes
  info : UInt8
  user_data : Bytes
  name_ne : name ≠ []
  name_length : name.length ≤ 8
  name_ok : ∀ c ∈ name, c ≠ cs.code ' ' ∧ c ≠ 0 ∧ c ≠ cs.code '*'
  ttr_length : ttr.length = 3
  user_data_length : user_data.length = (info &&& 0x1F).toNat * 2
  ne_end : padded_name cs name ≠ List.replicate 8 0xFF

variable {cs : Charset}

namespace Member

def header (m : Member cs) : Bytes := padded_name cs m.name ++ m.ttr ++ [m.info]

def bytes (m : Member cs) : Bytes := m.header ++ m.user_data

/-- What the list says of a member. -/
def mem (opts : ListOptions) (m : Member cs) : ZDSMem :=
  if opts.show_attributes ∧ sizeof_stats ≤ m.user_data.length then
    with_stats cs opts m.name (ISPF_STATS.of_bytes (m.user_data.take sizeof_stats))
      m.user_data.length
  else { name := m.name }

def Matched (opts : ListOptions) (m : Member cs) : Prop :=
  opts.pattern = [] ∨ Matches m.name ((c_str (opts.upper_pattern cs)).map (symbol cs))

end Member

open Classical in
/-- The members that match, in their order. -/
noncomputable def listed (opts : ListOptions) (members : List (Member cs)) : List (Member cs) :=
  members.filter fun m => m.Matched opts

/-- A block with the entries of members, and the end of the directory where it is the last. -/
structure Holds (record : RECORD) (members : List (Member cs)) (last : Bool) : Prop where
  length : record.rest.length = RECLEN
  le : record.count ≤ 256
  used : ∃ padding ending, record.rest = members.flatMap Member.bytes ++ ending ++ padding ∧
    record.count = 2 + (members.flatMap Member.bytes).length + ending.length ∧
    if last then ∃ more, ending = List.replicate 8 0xFF ++ more ∧ more.length = 4
    else members ≠ [] ∧ ending = []

/-- The blocks up to the last. -/
inductive Directory : List RECORD → List (Member cs) → Prop
  | last {record : RECORD} {members : List (Member cs)} :
    Holds record members true → Directory [record] members
  | more {record : RECORD} {records : List RECORD} {members more : List (Member cs)} :
    Holds record members false → Directory records more →
      Directory (record :: records) (members ++ more)

variable {opts : ListOptions}

/-! One entry. -/

theorem read_at_append {before here after : Bytes} {offset n : ℕ} (hoffset : offset = before.length)
    (hn : n = here.length) : read_at (before ++ (here ++ after)) offset n = some here := by
  subst hoffset hn
  rw [read_at, if_pos (by rw [List.length_append, List.length_append]; omega), List.drop_left,
    List.take_left]

theorem padded_name_length (m : Member cs) : (padded_name cs m.name).length = 8 := by
  have hle := m.name_length
  rw [padded_name, List.length_append, List.length_replicate]
  omega

namespace Member

variable (m : Member cs)

theorem header_length : m.header.length = sizeof_entry := by
  rw [header, List.length_append, List.length_append, padded_name_length, m.ttr_length,
    List.length_singleton, sizeof_entry]

theorem bytes_length : m.bytes.length = sizeof_entry + (m.info &&& 0x1F).toNat * 2 := by
  rw [bytes, List.length_append, header_length, m.user_data_length]

theorem of_header : RECORD_ENTRY.of_bytes m.header = ⟨padded_name cs m.name, m.ttr, m.info⟩ := by
  have hname := padded_name_length m
  have httr := m.ttr_length
  simp only [RECORD_ENTRY.of_bytes, header, RECORD_ENTRY.mk.injEq]
  refine ⟨?_, ?_, ?_⟩
  · rw [List.append_assoc, ← hname, List.take_left]
  · rw [List.append_assoc, ← hname, List.drop_left, ← httr, List.take_left]
  · rw [List.getD_eq_getElem?_getD, List.getElem?_append_right (by rw [List.length_append]; omega),
      List.length_append, hname, httr]
    rfl

theorem without_blanks_name : without_blanks cs (padded_name cs m.name) = m.name := by
  have hmap : m.name.map (fun c => if c = cs.code ' ' then 0 else c) = m.name := by
    rw [List.map_congr_left fun c hc => if_neg (m.name_ok c hc).1, List.map_id']
  rw [without_blanks, padded_name, List.map_append, hmap, List.map_replicate, if_pos rfl, c_str,
    List.takeWhile_append_of_pos (by
      intro c hc
      simpa using (m.name_ok c hc).2.1)]
  rcases 8 - m.name.length with _ | n
  · simp
  · simp [List.replicate_succ]

/-- The matcher decides whether a member matches. -/
theorem is_match_name (opts : ListOptions) : ∃ steps, ∀ fuel ≥ steps, ∃ result,
    name_matches cs fuel opts m.name = some result ∧ (result = true ↔ m.Matched opts) := by
  by_cases hpattern : opts.pattern = []
  · exact ⟨0, fun _ _ => ⟨true, if_pos hpattern, by simp [Matched, hpattern]⟩⟩
  · obtain ⟨result, steps, hresult, hfuel⟩ := is_match_exact cs m.name
      (c_str (opts.upper_pattern cs)) (fun hmem => (m.name_ok _ hmem).2.2 rfl)
    refine ⟨steps, fun fuel hle => ⟨result, ?_, ?_⟩⟩
    · rw [name_matches, if_neg hpattern]
      exact hfuel fuel hle
    · rw [hresult, Matched]
      exact ⟨.inr, fun h => h.resolve_left hpattern⟩

end Member

/-- With these steps each member is matched. -/
def Enough (opts : ListOptions) (fuel : ℕ) (members : List (Member cs)) : Prop :=
  ∀ m ∈ members, ∃ result,
    name_matches cs fuel opts m.name = some result ∧ (result = true ↔ m.Matched opts)

theorem exists_enough (opts : ListOptions) (members : List (Member cs)) :
    ∃ steps, ∀ fuel ≥ steps, Enough opts fuel members := by
  induction members with
  | nil => exact ⟨0, fun _ _ _ hmem => absurd hmem List.not_mem_nil⟩
  | cons m members ih =>
    obtain ⟨steps, hm⟩ := m.is_match_name opts
    obtain ⟨steps', hmembers⟩ := ih
    refine ⟨max steps steps', fun fuel hle m' hmem => ?_⟩
    rcases List.mem_cons.mp hmem with rfl | hmem
    · exact hm fuel (le_trans (Nat.le_max_left _ _) hle)
    · exact hmembers fuel (le_trans (Nat.le_max_right _ _) hle) m' hmem

/-! The entries that are gone through. -/

/-- Of the members seen, those that match are listed, and they are within the limit. -/
structure Seen (opts : ListOptions) (seen : List (Member cs)) (state : ListState) : Prop where
  total : state.total_entries = (listed opts seen).length
  members : state.members = (listed opts seen).map (Member.mem opts)
  le : ((listed opts seen).length : ℤ) ≤ opts.limit

/-- The limit was reached before the end of the members. -/
structure Cut (opts : ListOptions) (seen : List (Member cs)) (state : ListState) : Prop where
  members : state.members = ((listed opts seen).take opts.limit.toNat).map (Member.mem opts)
  lt : opts.limit < (listed opts seen).length

/-- How a walk over members ends. -/
def Walked (opts : ListOptions) (seen : List (Member cs)) (result : Bool × ListState) : Prop :=
  if result.1 then Cut opts seen result.2 else Seen opts seen result.2

theorem listed_append (members more : List (Member cs)) :
    listed opts (members ++ more) = listed opts members ++ listed opts more :=
  List.filter_append ..

theorem listed_singleton_of {m : Member cs} (h : m.Matched opts) : listed opts [m] = [m] := by
  simp [listed, h]

theorem listed_singleton_of_not {m : Member cs} (h : ¬ m.Matched opts) : listed opts [m] = [] := by
  simp [listed, h]

theorem Cut.append {members : List (Member cs)} {state : ListState} (h : Cut opts members state)
    (more : List (Member cs)) : Cut opts (members ++ more) state where
  members := by
    have hlt := h.lt
    rw [h.members, listed_append, List.take_append_of_le_length (by omega)]
  lt := by
    have hlt := h.lt
    rw [listed_append, List.length_append]
    omega

variable {record : RECORD} {i fuel : ℕ}

/-- The statistics are read from the block as they are in the entry. -/
theorem read_member_eq {before after : Bytes} (m : Member cs)
    (hrest : record.rest = before ++ (m.bytes ++ after)) (hi : i = before.length)
    (hle : i + m.bytes.length ≤ record.count) :
    read_member cs opts record i i m.name ((m.info &&& 0x1F).toNat * 2) = some (m.mem opts) := by
  have hlength := m.user_data_length
  rw [m.bytes_length] at hle
  rw [read_member, Member.mem, ← hlength]
  by_cases hstats : opts.show_attributes ∧ sizeof_stats ≤ m.user_data.length
  · have hread : read_at record.rest (i + sizeof_entry) sizeof_stats =
        some (m.user_data.take sizeof_stats) := by
      have hshape : record.rest = (before ++ m.header) ++ (m.user_data.take sizeof_stats ++
          (m.user_data.drop sizeof_stats ++ after)) := by
        rw [← List.append_assoc (m.user_data.take _), List.take_append_drop, hrest, Member.bytes]
        simp only [List.append_assoc]
      rw [hshape]
      apply read_at_append
      · rw [List.length_append, m.header_length, hi]
      · rw [List.length_take]
        omega
    rw [if_pos ⟨hstats.1, hstats.2, by omega⟩, hread, if_pos hstats]
    rfl
  · rw [if_neg (fun h => hstats ⟨h.1, h.2.1⟩), if_neg hstats]

theorem list_entry_eq {members : List (Member cs)} {state : ListState} {before after : Bytes}
    (m : Member cs) (hseen : Seen opts members state) (hfuel : Enough opts fuel [m])
    (hrest : record.rest = before ++ (m.bytes ++ after)) (hi : i = before.length)
    (hle : i + m.bytes.length ≤ record.count) :
    ∃ result, list_entry cs fuel opts record i i ⟨padded_name cs m.name, m.ttr, m.info⟩ state =
      some result ∧ Walked opts (members ++ [m]) result := by
  obtain ⟨matched, hmatch, hmatched⟩ := hfuel m (List.mem_singleton_self m)
  rw [list_entry, m.without_blanks_name]
  dsimp only
  rw [hmatch]
  dsimp only [bind, Option.bind]
  by_cases hm : m.Matched opts
  · have hlisted : listed opts (members ++ [m]) = listed opts members ++ [m] := by
      rw [listed_append, listed_singleton_of hm]
    rw [if_pos (hmatched.mpr hm)]
    by_cases hlimit : ((state.total_entries + 1 : ℕ) : ℤ) > opts.limit
    · have htotal := hseen.total
      have hwithin := hseen.le
      rw [if_pos hlimit]
      refine ⟨_, rfl, ?_⟩
      rw [Walked, if_pos rfl]
      refine ⟨?_, ?_⟩
      · rw [hlisted, List.take_append_of_le_length (by omega), List.take_of_length_le (by omega)]
        exact hseen.members
      · rw [hlisted, List.length_append, List.length_singleton]
        omega
    · rw [if_neg hlimit, read_member_eq m hrest hi hle]
      refine ⟨_, rfl, ?_⟩
      rw [Walked, if_neg Bool.false_ne_true]
      refine ⟨?_, ?_, ?_⟩
      · rw [hlisted, List.length_append, List.length_singleton, ← hseen.total]
      · rw [hlisted, List.map_append, ← hseen.members]
        rfl
      · have htotal := hseen.total
        rw [hlisted, List.length_append, List.length_singleton]
        omega
  · have hlisted : listed opts (members ++ [m]) = listed opts members := by
      rw [listed_append, listed_singleton_of_not hm, List.append_nil]
    rw [if_neg (fun h => hm (hmatched.mp h))]
    refine ⟨_, rfl, ?_⟩
    rw [Walked, if_neg Bool.false_ne_true]
    exact ⟨by rw [hlisted]; exact hseen.total, by rw [hlisted]; exact hseen.members,
      by rw [hlisted]; exact hseen.le⟩

/-! The entries of a block. -/

theorem Enough.of_append {fuel : ℕ} {members more : List (Member cs)}
    (h : Enough opts fuel (members ++ more)) :
    Enough opts fuel members ∧ Enough opts fuel more :=
  ⟨fun m hm => h m (List.mem_append_left _ hm), fun m hm => h m (List.mem_append_right _ hm)⟩

/-- What the walk needs of the number of bytes: it is past the entries, within the block, and there
is no room for another entry. -/
structure Counts (count used : ℕ) (last : Bool) : Prop where
  le : used ≤ count
  lt : last = false → count < used + sizeof_entry
  room : last = true → used + sizeof_entry ≤ count

/-- After the last entry the walk ends: at the end of the directory, or without room. -/
theorem list_block_end {state : ListState} {last : Bool} {before ending : Bytes}
    (hrest : record.rest = before ++ ending) (hi : i = before.length)
    (hcounts : Counts record.count i last)
    (hending : last = true → ∃ more after,
      ending = List.replicate 8 0xFF ++ more ++ after ∧ more.length = 4) :
    list_block cs fuel opts record i i state = some (false, state) := by
  rw [list_block]
  cases last with
  | false =>
    have hlt := hcounts.lt rfl
    by_cases hmore : i < record.count
    · rw [if_pos hmore, if_pos hlt]
    · rw [if_neg hmore]
  | true =>
    obtain ⟨more, after, hbytes, hlength⟩ := hending rfl
    have hroom := hcounts.room rfl
    have hpos : 0 < sizeof_entry := by decide
    have hread : read_at record.rest i sizeof_entry = some (List.replicate 8 0xFF ++ more) := by
      rw [hrest, hbytes]
      apply read_at_append hi
      rw [List.length_append, List.length_replicate, hlength, sizeof_entry]
    have hname : (RECORD_ENTRY.of_bytes (List.replicate 8 0xFF ++ more)).name =
        List.replicate 8 0xFF := List.take_left' (List.length_replicate ..)
    rw [if_pos (by omega), if_neg (by omega), hread]
    dsimp only [bind, Option.bind]
    rw [if_pos hname]

/-- An entry is read, and the walk goes on after it unless that is the end. -/
theorem list_block_cons {state : ListState} {before after : Bytes} (m : Member cs)
    (hrest : record.rest = before ++ (m.bytes ++ after)) (hi : i = before.length)
    (hle : i + m.bytes.length ≤ record.count) :
    list_block cs fuel opts record i i state =
      (list_entry cs fuel opts record i i ⟨padded_name cs m.name, m.ttr, m.info⟩ state).bind
        fun result =>
          if result.1 ∨ record.count < i + m.bytes.length + sizeof_entry then some result
          else list_block cs fuel opts record (i + m.bytes.length) (i + m.bytes.length)
            result.2 := by
  have hlength := m.bytes_length
  have hpos : 0 < sizeof_entry := by decide
  have hread : read_at record.rest i sizeof_entry = some m.header := by
    rw [hrest, Member.bytes, List.append_assoc]
    exact read_at_append hi m.header_length.symm
  rw [list_block, if_pos (by omega), if_neg (by omega), hread]
  dsimp only [bind, Option.bind]
  rw [m.of_header, if_neg m.ne_end, ← hlength]
  congr 1
  funext result
  obtain ⟨maxed, state⟩ := result
  dsimp only
  by_cases hstop : maxed = true ∨ record.count < i + m.bytes.length + sizeof_entry
  · rw [if_pos hstop, if_pos (hstop.imp id (by omega))]
  · rw [if_neg hstop, if_neg (fun h => hstop (h.imp id (by omega)))]

theorem list_block_eq {seen members : List (Member cs)} {state : ListState} {last : Bool}
    {before ending : Bytes} (hseen : Seen opts seen state) (hfuel : Enough opts fuel members)
    (hrest : record.rest = before ++ (members.flatMap Member.bytes ++ ending))
    (hi : i = before.length)
    (hcounts : Counts record.count (i + (members.flatMap Member.bytes).length) last)
    (hending : last = true → ∃ more after,
      ending = List.replicate 8 0xFF ++ more ++ after ∧ more.length = 4) :
    ∃ result, list_block cs fuel opts record i i state = some result ∧
      Walked opts (seen ++ members) result := by
  induction members generalizing seen state before i with
  | nil =>
    refine ⟨_, list_block_end hrest hi hcounts hending, ?_⟩
    rw [List.append_nil, Walked, if_neg Bool.false_ne_true]
    exact hseen
  | cons m members ih =>
    rw [List.flatMap_cons, List.append_assoc] at hrest
    rw [List.flatMap_cons, List.length_append] at hcounts
    have hle := hcounts.le
    obtain ⟨hm, hmembers⟩ := @Enough.of_append _ _ _ [m] members hfuel
    obtain ⟨⟨maxed, state'⟩, hentry, hwalked⟩ :=
      list_entry_eq m hseen hm hrest hi (by omega)
    have happend : seen ++ m :: members = seen ++ [m] ++ members := by simp
    rw [list_block_cons m hrest hi (by omega), hentry, happend]
    dsimp only [Option.bind]
    cases maxed with
    | true =>
      rw [if_pos (.inl rfl)]
      rw [Walked, if_pos rfl] at hwalked
      refine ⟨_, rfl, ?_⟩
      rw [Walked, if_pos rfl]
      exact hwalked.append members
    | false =>
      rw [Walked, if_neg Bool.false_ne_true] at hwalked
      by_cases hstop : record.count < i + m.bytes.length + sizeof_entry
      · have hnil : members = [] := by
          rcases members with _ | ⟨next, members⟩
          · rfl
          · have hnext := next.bytes_length
            rw [List.flatMap_cons, List.length_append] at hle
            omega
        subst hnil
        rw [if_pos (.inr hstop), List.append_nil]
        refine ⟨_, rfl, ?_⟩
        rw [Walked, if_neg Bool.false_ne_true]
        exact hwalked
      · rw [if_neg (by simpa using hstop)]
        rw [← List.append_assoc before] at hrest
        exact ih (i := i + m.bytes.length) hwalked hmembers hrest
          (by rw [List.length_append, hi]) (by rw [Nat.add_assoc]; exact hcounts)

/-! The blocks of a directory. -/

/-- The number of bytes that the walk goes by. -/
def walked_count (record : RECORD) : ℕ := if record.count > RECLEN then RECLEN else record.count

/-- A block of which all bytes are used. -/
def Full (record : RECORD) : Prop := record.count = 256

theorem flatMap_bytes_even (members : List (Member cs)) :
    (members.flatMap Member.bytes).length % 2 = 0 := by
  induction members with
  | nil => rfl
  | cons m members ih =>
    have hlength := m.bytes_length
    rw [sizeof_entry] at hlength
    rw [List.flatMap_cons, List.length_append]
    omega

theorem Holds.full_iff {members : List (Member cs)} {last : Bool} (h : Holds record members last) :
    record.count > RECLEN ↔ Full record := by
  obtain ⟨padding, ending, -, hcount, hending⟩ := h.used
  have heven := flatMap_bytes_even members
  have hle := h.le
  have hlength : ending.length % 2 = 0 := by
    cases last with
    | false => simp [hending.2]
    | true =>
      obtain ⟨more, rfl, hmore⟩ := hending
      rw [List.length_append, List.length_replicate, hmore]
  rw [RECLEN, Full]
  omega

theorem Holds.list_block {seen members : List (Member cs)} {state : ListState} {last : Bool}
    (h : Holds record members last) (hseen : Seen opts seen state)
    (hfuel : Enough opts fuel members) :
    ∃ result, list_block cs fuel opts { record with count := walked_count record } 0 0 state =
      some result ∧ Walked opts (seen ++ members) result := by
  obtain ⟨padding, ending, hrest, hcount, hending⟩ := h.used
  have hlength := h.length
  rw [hrest, List.length_append, List.length_append] at hlength
  rw [RECLEN] at hlength
  have hle := h.le
  refine @list_block_eq _ _ _ _ _ _ _ _ last [] (ending ++ padding) hseen hfuel ?_ rfl ?_ ?_
  · rw [List.nil_append, hrest, List.append_assoc]
  · rw [Nat.zero_add]
    dsimp only
    rw [walked_count, RECLEN]
    cases last with
    | false =>
      have hnil : ending.length = 0 := by simp [hending.2]
      have hbound : ∀ count, (if record.count > 254 then 254 else record.count) = count →
          (members.flatMap Member.bytes).length ≤ count ∧
            count < (members.flatMap Member.bytes).length + 12 := by
        intro count hcases
        by_cases hfull : record.count > 254
        · rw [if_pos hfull] at hcases
          omega
        · rw [if_neg hfull] at hcases
          omega
      exact ⟨(hbound _ rfl).1, fun _ => (hbound _ rfl).2, fun h => absurd h (by simp)⟩
    | true =>
      obtain ⟨more, hbytes, hmore⟩ := hending
      have hend : ending.length = 12 := by
        rw [hbytes, List.length_append, List.length_replicate, hmore]
      have hbound : ∀ count, (if record.count > 254 then 254 else record.count) = count →
          (members.flatMap Member.bytes).length + 12 ≤ count := by
        intro count hcases
        by_cases hfull : record.count > 254
        · rw [if_pos hfull] at hcases
          omega
        · rw [if_neg hfull] at hcases
          omega
      exact ⟨by have := hbound _ rfl; omega, fun h => absurd h (by simp), fun _ => hbound _ rfl⟩
  · rintro rfl
    obtain ⟨more, hbytes, hmore⟩ := hending
    exact ⟨more, padding, by rw [hbytes], hmore⟩

/-- The return code after all blocks. -/
def end_code (corrupt : Bool) : ReturnCode := if corrupt then .RTNCD_WARNING else .RTNCD_SUCCESS

theorem list_blocks_cons {records : List RECORD} {corrupt : Bool} {state : ListState} :
    list_blocks cs fuel opts (record :: records) corrupt state =
      (list_block cs fuel opts { record with count := walked_count record } 0 0 state).bind
        fun result =>
          if result.1 then some (.RTNCD_WARNING, result.2.members)
          else list_blocks cs fuel opts records (corrupt || record.count > RECLEN) result.2 := by
  rw [list_blocks]
  dsimp only
  rw [show (if record.count > RECLEN then { record with count := RECLEN } else record) =
    { record with count := walked_count record } by rw [walked_count]; split <;> rfl]
  rfl

/-- The names that match are listed up to the limit; the return code is a success if and only if
none is left out and no block is full. -/
def Lists (opts : ListOptions) (members : List (Member cs)) (sound : Prop)
    (result : ReturnCode × List ZDSMem) : Prop :=
  result.2 = ((listed opts members).take opts.limit.toNat).map (Member.mem opts) ∧
    (result.1 = .RTNCD_SUCCESS ↔ ((listed opts members).length : ℤ) ≤ opts.limit ∧ sound)

theorem Cut.lists {members : List (Member cs)} {state : ListState} {sound : Prop}
    (h : Cut opts members state) : Lists opts members sound (.RTNCD_WARNING, state.members) := by
  have hlt := h.lt
  refine ⟨h.members, ?_⟩
  constructor
  · intro hsuccess
    cases hsuccess
  · rintro ⟨hle, -⟩
    omega

theorem Seen.lists {members : List (Member cs)} {state : ListState} (h : Seen opts members state)
    (corrupt : Bool) : Lists opts members (corrupt = false)
      (if corrupt then .RTNCD_WARNING else .RTNCD_SUCCESS, state.members) := by
  have hle := h.le
  refine ⟨?_, ?_⟩
  · rw [List.take_of_length_le (by omega)]
    exact h.members
  · cases corrupt <;> simp [hle]

theorem list_blocks_eq {records : List RECORD} {members seen : List (Member cs)}
    {state : ListState} {corrupt : Bool} (h : Directory records members)
    (hseen : Seen opts seen state) (hfuel : Enough opts fuel members) :
    ∃ result, list_blocks cs fuel opts records corrupt state = some result ∧
      Lists opts (seen ++ members) (corrupt = false ∧ ∀ record ∈ records, ¬ Full record)
        result := by
  induction h generalizing seen state corrupt with
  | @last record members hholds =>
    obtain ⟨⟨maxed, state'⟩, hblock, hwalked⟩ := hholds.list_block hseen hfuel
    rw [list_blocks_cons, hblock]
    dsimp only [Option.bind]
    cases maxed with
    | true => exact ⟨_, if_pos rfl, Cut.lists hwalked⟩
    | false =>
      refine ⟨_, if_neg Bool.false_ne_true, ?_⟩
      have hlists := Seen.lists hwalked (corrupt || record.count > RECLEN)
      simpa [hholds.full_iff] using hlists
  | @more record records members more hholds hrest ih =>
    obtain ⟨hmembers, hmore⟩ := hfuel.of_append
    obtain ⟨⟨maxed, state'⟩, hblock, hwalked⟩ := hholds.list_block hseen hmembers
    rw [list_blocks_cons, hblock, ← List.append_assoc]
    dsimp only [Option.bind]
    cases maxed with
    | true => exact ⟨_, if_pos rfl, (Cut.append hwalked more).lists⟩
    | false =>
      obtain ⟨result, hresult, hlists⟩ := @ih _ _ (corrupt || record.count > RECLEN) hwalked hmore
      rw [if_neg Bool.false_ne_true]
      refine ⟨result, hresult, ?_⟩
      simpa [hholds.full_iff, and_assoc] using hlists

/-- The names of the members that match, in the order of the directory. -/
noncomputable def matching_names (opts : ListOptions) (members : List (Member cs)) : List Bytes :=
  (listed opts members).map Member.name

theorem mem_name (opts : ListOptions) (m : Member cs) : (m.mem opts).name = m.name := by
  rw [Member.mem]
  split
  · rw [with_stats]
    split <;> rfl
  · rfl

theorem limit_pos (h : 0 ≤ opts.max_entries) : 0 < opts.limit := by
  rw [ListOptions.limit]
  by_cases hzero : opts.max_entries = 0
  · rw [if_pos hzero]
    decide
  · rw [if_neg hzero]
    omega

theorem seen_nothing (h : 0 ≤ opts.max_entries) : @Seen cs opts [] {} where
  total := rfl
  members := rfl
  le := (limit_pos h).le

theorem list_members_eq {records : List RECORD} {members : List (Member cs)}
    (h : Directory records members) (hlimit : 0 ≤ opts.max_entries) :
    ∃ steps, ∀ fuel ≥ steps, ∃ result,
      zds_list_members cs fuel opts (some records) = some result ∧
        Lists opts members (∀ record ∈ records, ¬ Full record) result := by
  obtain ⟨steps, hsteps⟩ := exists_enough opts members
  refine ⟨steps, fun fuel hle => ?_⟩
  obtain ⟨result, hresult, hlists⟩ := @list_blocks_eq _ _ _ _ _ _ _ false h (seen_nothing hlimit)
    (hsteps fuel hle)
  refine ⟨result, hresult, ?_⟩
  rw [List.nil_append] at hlists
  simpa using hlists

/-- The members that match are listed in their order up to the limit, and every read is within its
block. Where none is left out it is a success, unless all bytes of a block are used. -/
theorem members_listed_iff (cs : Charset) (opts : ListOptions) (records : List RECORD)
    (members : List (Member cs)) (h : Directory records members) (hlimit : 0 ≤ opts.max_entries) :
    ∃ steps, ∀ fuel ≥ steps, ∃ rc listing,
      zds_list_members cs fuel opts (some records) = some (rc, listing) ∧
      listing.map ZDSMem.name = (matching_names opts members).take opts.limit.toNat ∧
      (((matching_names opts members).length ≤ opts.limit → rc = .RTNCD_SUCCESS) ↔
        opts.limit < (matching_names opts members).length ∨
          ∀ record ∈ records, ¬ Full record) := by
  obtain ⟨steps, hsteps⟩ := list_members_eq h hlimit
  refine ⟨steps, fun fuel hle => ?_⟩
  obtain ⟨⟨rc, listing⟩, hresult, hlisting, hrc⟩ := hsteps fuel hle
  refine ⟨rc, listing, hresult, ?_, ?_⟩
  · dsimp only at hlisting
    rw [hlisting, List.map_map, matching_names, ← List.map_take]
    apply List.map_congr_left
    intro m _
    exact mem_name opts m
  · rw [matching_names, List.length_map, hrc]
    constructor
    · intro hall
      by_cases hcut : opts.limit < (listed opts members).length
      · exact .inl hcut
      · exact .inr (hall (by omega)).2
    · rintro (hcut | hnone) hle
      · omega
      · exact ⟨hle, hnone⟩

/-! Some directories. -/

/-- A member of a name of one letter, with user data of zeros. -/
def letter_member (c : Char) (info : UInt8)
    (h : ascii.code c ≠ ascii.code ' ' ∧ ascii.code c ≠ 0 ∧ ascii.code c ≠ ascii.code '*') :
    Member ascii where
  name := [ascii.code c]
  ttr := [0, 0, 1]
  info := info
  user_data := List.replicate ((info &&& 0x1F).toNat * 2) 0
  name_ne := by simp
  name_length := by simp
  name_ok := by simpa using h
  ttr_length := rfl
  user_data_length := List.length_replicate
  ne_end := by
    intro hsame
    have hsecond := congrArg (fun name => name.getD 1 0) hsame
    change ascii.code ' ' = 0xFF at hsecond
    exact absurd hsecond (by decide)

def full_members : List (Member ascii) :=
  [letter_member 'A' 31 (by decide), letter_member 'B' 31 (by decide),
    letter_member 'C' 31 (by decide), letter_member 'D' 4 (by decide)]

/-- The end of a directory. -/
def directory_end : Bytes := List.replicate 8 0xFF ++ [0, 0, 0, 0]

def block_of (members : List (Member ascii)) : RECORD where
  count := 2 + (members.flatMap Member.bytes).length + 12
  rest := members.flatMap Member.bytes ++ directory_end ++
    List.replicate (242 - (members.flatMap Member.bytes).length) 0

theorem block_of_directory {members : List (Member ascii)}
    (h : (members.flatMap Member.bytes).length ≤ 242) : Directory [block_of members] members := by
  refine .last ⟨?_, ?_, ?_⟩
  · rw [block_of, List.length_append, List.length_append, List.length_replicate, RECLEN]
    have hend : directory_end.length = 12 := rfl
    omega
  · rw [block_of]
    dsimp only
    omega
  · exact ⟨_, directory_end, rfl, rfl, [0, 0, 0, 0], rfl, rfl⟩

def list_all : ListOptions where
  pattern := []
  show_attributes := false
  max_entries := 0
  convert_date := fun _ => none

theorem listed_all {opts : ListOptions} (h : opts.pattern = []) (members : List (Member cs)) :
    listed opts members = members := by
  rw [listed, List.filter_eq_self]
  intro m _
  simp [Member.Matched, h]

/-- Four members fill a block: each is listed, with a warning. -/
theorem full_block_warns :
    Directory [block_of full_members] full_members ∧
    (matching_names list_all full_members).length ≤ list_all.limit ∧
    ∃ steps, ∀ fuel ≥ steps, ∃ rc listing,
      zds_list_members ascii fuel list_all (some [block_of full_members]) = some (rc, listing) ∧
        rc ≠ .RTNCD_SUCCESS := by
  have hdirectory : Directory [block_of full_members] full_members :=
    block_of_directory (by decide +kernel)
  have hlimit : (matching_names list_all full_members).length ≤ list_all.limit := by
    rw [matching_names, List.length_map, listed_all rfl]
    decide
  refine ⟨hdirectory, hlimit, ?_⟩
  obtain ⟨steps, hsteps⟩ := @list_members_eq _ list_all _ _ hdirectory (by decide)
  refine ⟨steps, fun fuel hle => ?_⟩
  obtain ⟨⟨rc, listing⟩, hresult, -, hrc⟩ := hsteps fuel hle
  have hfull : Full (block_of full_members) := by
    rw [Full]
    decide +kernel
  exact ⟨rc, listing, hresult, fun hsuccess =>
    (hrc.mp hsuccess).2 _ (List.mem_singleton_self _) hfull⟩

/-- The hypotheses hold of a directory of one member. -/
theorem members_listed_of_one : ∃ steps, ∀ fuel ≥ steps, ∃ rc listing,
    zds_list_members ascii fuel list_all
      (some [block_of [letter_member 'A' 0 (by decide)]]) = some (rc, listing) ∧
    listing.map ZDSMem.name = [ascii.str "A"] ∧ rc = .RTNCD_SUCCESS := by
  obtain ⟨steps, hsteps⟩ := members_listed_iff ascii list_all
    [block_of [letter_member 'A' 0 (by decide)]] [letter_member 'A' 0 (by decide)]
    (block_of_directory (by decide +kernel)) (by decide)
  have hnames : matching_names list_all [letter_member 'A' 0 (by decide)] = [ascii.str "A"] := by
    rw [matching_names, listed_all rfl]
    rfl
  refine ⟨steps, fun fuel hle => ?_⟩
  obtain ⟨rc, listing, hresult, hlisting, hrc⟩ := hsteps fuel hle
  rw [hnames] at hlisting hrc
  refine ⟨rc, listing, hresult, hlisting, hrc.mpr (.inr ?_) (by decide)⟩
  rw [List.forall_mem_singleton, Full]
  decide +kernel

end Zowex.zds
