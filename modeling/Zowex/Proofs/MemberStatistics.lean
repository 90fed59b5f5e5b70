import Zowex.Proofs.MemberList

/-! The number of lines of a member, from the write to the list. It passes through a halfword, which
is read with its sign, and a report where -1 stands for no number. -/

namespace Zowex.zds

variable {cs : Charset}

/-! The statistics in the user data. -/

/-- Statistics that their bytes hold. -/
structure ISPF_STATS.Sized (stats : ISPF_STATS) : Prop where
  userid : stats.userid.length = 8
  extended : stats.extended.length = 2

theorem halfword_eq (n : UInt16) :
    UInt16.ofNat ((UInt8.ofNat (n.toNat / 256)).toNat * 256 + (UInt8.ofNat n.toNat).toNat) = n := by
  have hlt := n.toNat_lt
  apply UInt16.toNat_inj.mp
  rw [UInt16.toNat_ofNat', UInt8.toNat_ofNat', UInt8.toNat_ofNat']
  omega

theorem of_bytes_bytes {stats : ISPF_STATS} (h : stats.Sized) :
    ISPF_STATS.of_bytes stats.bytes = stats := by
  have huserid := h.userid
  have hextended := h.extended
  obtain ⟨version, level, flags, seconds, created, modified, hours, minutes, current, initial,
    changed, userid, extended⟩ := stats
  simp only at huserid hextended
  simp only [ISPF_STATS.of_bytes, ISPF_STATS.bytes, DateBytes.bytes, halfword_bytes,
    halfword_at, date_at, List.cons_append, List.nil_append, List.getD_cons_zero, List.getD_cons_succ, List.drop_succ_cons, List.drop_zero, halfword_eq,
    ISPF_STATS.mk.injEq, true_and]
  refine ⟨?_, ?_⟩
  · rw [← huserid, List.take_left]
  · rw [← huserid, List.drop_left, ← hextended, List.take_length]

theorem bytes_length {stats : ISPF_STATS} (h : stats.Sized) : stats.bytes.length = sizeof_stats := by
  have huserid := h.userid
  have hextended := h.extended
  simp [ISPF_STATS.bytes, DateBytes.bytes, halfword_bytes, huserid, hextended, sizeof_stats]

/-- What is stored is found again. -/
theorem with_stats_stats (stow_list : STOW_LIST) {stats : ISPF_STATS} (h : stats.Sized) :
    (stow_list.with_stats stats).stats = stats := by
  rw [STOW_LIST.stats, STOW_LIST.with_stats, ← bytes_length h, List.take_left, of_bytes_bytes h]

/-! The update. -/

/-- `MAX_USER_DATA_LEN`. -/
def max_user_data_len : ℕ := 62

def user_data_len (stow_list : STOW_LIST) : ℕ := (stow_list.c &&& LEN_MASK).toNat * 2

/-- The member is new, or has valid statistics. -/
def Updatable (cs : Charset) (list : STOW_LIST) : Prop :=
  list.c &&& LEN_MASK = 0 ∨
    list.user_data.length = max_user_data_len ∧
      is_valid_ispf_stats cs list.stats (user_data_len list)

/-- The services work: the entry is found or there is none, the user has a name of 8 bytes and the
date is of this century or the last. -/
structure Available (cs : Charset) (sv : StatisticsServices) : Prop where
  bldl : sv.bldl.1 = 0 ∨ sv.bldl.1 = BLDL_WARNING
  user : ∃ user, sv.user = some user ∧ user.length = 8
  date : sv.date_local.century ≤ 0x01
  updatable : Updatable cs sv.bldl.2

/-- Valid statistics with a number of lines. -/
structure Counted (cs : Charset) (lines_written : ℕ) (stow_list : STOW_LIST) : Prop where
  valid : is_valid_ispf_stats cs stow_list.stats (user_data_len stow_list)
  lines : stow_list.stats.current_number_of_lines = UInt16.ofNat lines_written

/-- Statistics of one of the two sizes. -/
def Shaped (cs : Charset) (stats : ISPF_STATS) (n : ℕ) : Prop :=
  stats.flags &&& 0x20 = 0 ∧ n = 30 ∧ stats.extended = cs.str "  " ∨
    stats.flags &&& 0x20 ≠ 0 ∧ n = 40

theorem is_valid_iff {stats : ISPF_STATS} {n : ℕ} : is_valid_ispf_stats cs stats n ↔
    Shaped cs stats n ∧ stats.created_date.century ≤ 0x01 ∧
      stats.modified_date.century ≤ 0x01 := by
  rw [is_valid_ispf_stats, Shaped]
  by_cases hcentury : stats.created_date.century > 0x01 ∨ stats.modified_date.century > 0x01
  · rw [if_pos hcentury]
    have hnot : ¬ (stats.created_date.century ≤ 0x01 ∧ stats.modified_date.century ≤ 0x01) := by
      rintro ⟨hcreated, hmodified⟩
      rcases hcentury with hlt | hlt
      · exact absurd hlt (UInt8.not_lt.mpr hcreated)
      · exact absurd hlt (UInt8.not_lt.mpr hmodified)
    simp [hnot]
  · rw [not_or, UInt8.not_lt, UInt8.not_lt] at hcentury
    rw [if_neg (by simpa [UInt8.not_lt] using hcentury)]
    by_cases hextended : stats.flags &&& 0x20 = 0
    · simp [hextended, hcentury.1, hcentury.2]
    · simp [hextended, hcentury.1, hcentury.2]

theorem Shaped.ge {stats : ISPF_STATS} {n : ℕ} (h : Shaped cs stats n) : sizeof_stats ≤ n := by
  rw [sizeof_stats]
  rcases h with ⟨-, hn, -⟩ | ⟨-, hn⟩ <;> omega

theorem initial_stats_sized (sv : StatisticsServices) (n : ℕ) {user : Bytes}
    (h : user.length = 8) (stats : ISPF_STATS) : (initial_stats cs sv user n stats).Sized where
  userid := h
  extended := rfl

theorem initial_counted {sv : StatisticsServices} (hdate : sv.date_local.century ≤ 0x01) (n : ℕ)
    {user : Bytes} (huser : user.length = 8) (stow_list : STOW_LIST)
    (hc : stow_list.c = ISPF_STATS_MIN_LEN) :
    Counted cs n (stow_list.with_stats (initial_stats cs sv user n stow_list.stats)) := by
  have hlen : user_data_len (stow_list.with_stats (initial_stats cs sv user n stow_list.stats)) =
      30 := by
    rw [user_data_len, STOW_LIST.with_stats]
    dsimp only
    rw [hc]
    rfl
  refine ⟨?_, ?_⟩
  · rw [with_stats_stats _ (initial_stats_sized sv n huser _), is_valid_iff, hlen]
    exact ⟨.inl ⟨UInt8.zero_and, rfl, rfl⟩, hdate, hdate⟩
  · rw [with_stats_stats _ (initial_stats_sized sv n huser _)]
    rfl

theorem updated_counted {sv : StatisticsServices} (hdate : sv.date_local.century ≤ 0x01) (n : ℕ)
    {user : Bytes} (huser : user.length = 8) {stow_list : STOW_LIST}
    (hextended : stow_list.stats.extended.length = 2)
    (hvalid : is_valid_ispf_stats cs stow_list.stats (user_data_len stow_list)) :
    Counted cs n (stow_list.with_stats (updated_stats sv user n stow_list.stats)) := by
  have hsized : (updated_stats sv user n stow_list.stats).Sized := ⟨huser, hextended⟩
  obtain ⟨hshaped, hcreated, -⟩ := is_valid_iff.mp hvalid
  refine ⟨?_, ?_⟩
  · rw [with_stats_stats _ hsized, is_valid_iff]
    exact ⟨hshaped, hcreated, hdate⟩
  · rw [with_stats_stats _ hsized]
    rfl

theorem of_bytes_extended {data : Bytes} (h : sizeof_stats ≤ data.length) :
    (ISPF_STATS.of_bytes (data.take sizeof_stats)).extended.length = 2 := by
  rw [sizeof_stats] at h
  simp only [ISPF_STATS.of_bytes, sizeof_stats, List.length_take, List.length_drop]
  omega

/-- The statistics of the entry that is stored, whether it is new or not. -/
theorem update_counted {sv : StatisticsServices} (h : Available cs sv) (n : ℕ)
    (stow_list : STOW_LIST) : ∃ stored,
      update_ispf_statistics cs sv false true n stow_list = .ok stored ∧ Counted cs n stored := by
  obtain ⟨user, huser, hlength⟩ := h.user
  have hrc : ¬ (sv.bldl.1 ≠ 0 ∧ sv.bldl.1 ≠ BLDL_WARNING) := by
    rintro ⟨hzero, hwarning⟩
    exact h.bldl.elim hzero hwarning
  rw [update_ispf_statistics, if_neg Bool.false_ne_true, if_pos rfl]
  dsimp only
  rw [if_neg hrc]
  by_cases hnew : sv.bldl.2.c &&& LEN_MASK = 0
  · rw [if_pos hnew, huser]
    exact ⟨_, rfl, initial_counted h.date n hlength _ rfl⟩
  · obtain ⟨hdata, hvalid⟩ := h.updatable.resolve_left hnew
    rw [if_neg hnew, huser]
    refine ⟨_, rfl, ?_⟩
    have hge := (is_valid_iff.mp hvalid).1.ge
    have hle : user_data_len sv.bldl.2 ≤ max_user_data_len := by
      have hmask : (sv.bldl.2.c &&& LEN_MASK).toNat ≤ 31 := by
        rw [UInt8.toNat_and]
        exact Nat.and_le_right
      rw [user_data_len, max_user_data_len]
      omega
    have hstats : (STOW_LIST.mk sv.bldl.2.c (sv.bldl.2.user_data.take (user_data_len sv.bldl.2) ++
        stow_list.user_data.drop (user_data_len sv.bldl.2))).stats = sv.bldl.2.stats := by
      rw [STOW_LIST.stats, STOW_LIST.stats]
      dsimp only
      rw [List.take_append_of_le_length (by rw [List.length_take]; omega), List.take_take,
        Nat.min_eq_left hge]
    apply updated_counted h.date n hlength
    · exact (congrArg (fun stats => stats.extended.length) hstats).trans
        (of_bytes_extended (by omega))
    · exact (congrArg (fun stats => is_valid_ispf_stats cs stats _) hstats).trans hvalid

/-! The list. -/

/-- `STOW` stores an entry with the length and the user data that it is given. -/
structure Stored (m : Member cs) (stow_list : STOW_LIST) : Prop where
  info : m.info &&& 0x1F = stow_list.c &&& LEN_MASK
  user_data : m.user_data = stow_list.user_data.take (user_data_len stow_list)

theorem Stored.length {m : Member cs} {stow_list : STOW_LIST} (h : Stored m stow_list) :
    m.user_data.length = user_data_len stow_list := by
  rw [m.user_data_length, h.info, user_data_len]

variable {opts : ListOptions}

theorem mem_of_counted {m : Member cs} {stow_list : STOW_LIST} {n : ℕ} (h : Stored m stow_list)
    (hcounted : Counted cs n stow_list) (hattributes : opts.show_attributes) :
    (m.mem opts).stats_valid = true ∧ (m.mem opts).cnorc = short_int (UInt16.ofNat n) := by
  have hge := (is_valid_iff.mp hcounted.valid).1.ge
  have hstats : ISPF_STATS.of_bytes (m.user_data.take sizeof_stats) = stow_list.stats := by
    rw [h.user_data, List.take_take, Nat.min_eq_left hge, STOW_LIST.stats]
  rw [Member.mem, if_pos ⟨hattributes, by rw [h.length]; exact hge⟩, hstats, h.length, with_stats,
    if_pos hcounted.valid]
  refine ⟨rfl, ?_⟩
  dsimp only
  rw [hcounted.lines]

/-- Without user data there are no statistics. -/
theorem mem_of_none {m : Member cs} {stow_list : STOW_LIST} (h : Stored m stow_list)
    (hc : stow_list.c = 0) : (m.mem opts).stats_valid = false := by
  have hlength : m.user_data.length = 0 := by
    rw [h.length, user_data_len, hc]
    rfl
  rw [Member.mem, if_neg]
  rintro ⟨-, hge⟩
  rw [hlength, sizeof_stats] at hge
  omega

/-- The largest number of lines that the halfword holds. -/
def max_lines : ℕ := 32767

theorem short_int_ofNat (n : ℕ) : short_int (UInt16.ofNat n) =
    if n % 65536 < 32768 then ((n % 65536 : ℕ) : ℤ)
    else ((n % 65536 : ℕ) : ℤ) - 65536 := by
  have hn : (UInt16.ofNat n).toNat = n % 65536 := UInt16.toNat_ofNat'
  have hvalue : short_int (UInt16.ofNat n) = ((n % 65536 : ℕ) : ℤ).bmod 65536 := by
    rw [← hn]
    rfl
  have hlt : n % 65536 < 65536 := Nat.mod_lt _ (by omega)
  rw [hvalue, Int.bmod_eq_emod]
  clear hvalue hn
  generalize n % 65536 = value at hlt ⊢
  by_cases hsmall : value < 32768
  · rw [if_pos hsmall]
    split <;> omega
  · rw [if_neg hsmall]
    split <;> omega

theorem reported_iff {member : ZDSMem} {n : ℕ} (hvalid : member.stats_valid = true)
    (hlines : member.cnorc = short_int (UInt16.ofNat n)) :
    (reported_counts member true).1 = some ((min n max_lines : ℕ) : ℤ) ↔
      n ≤ max_lines ∨ n % 65536 = max_lines := by
  rw [reported_counts]
  dsimp only
  rw [if_pos ⟨rfl, hvalid⟩, hlines, short_int_ofNat, max_lines]
  dsimp only
  by_cases hsmall : n % 65536 < 32768
  · rw [if_pos hsmall, if_pos (by omega), Option.some.injEq]
    omega
  · rw [if_neg hsmall]
    constructor
    · intro hsame
      by_cases habsent : ((n % 65536 : ℕ) : ℤ) - 65536 ≠ -1
      · rw [if_pos habsent, Option.some.injEq] at hsame
        omega
      · rw [if_neg habsent] at hsame
        cases hsame
    · omega

theorem not_reported {member : ZDSMem} (h : member.stats_valid = false) :
    (reported_counts member true).1 = none := by
  simp [reported_counts, h]

/-- Each member of a directory has its place in the list of all. -/
theorem member_listed {records : List RECORD} {members : List (Member cs)} {k : ℕ} {m : Member cs}
    (hdirectory : Directory records members) (hmember : members[k]? = some m)
    (hpattern : opts.pattern = []) (hlimit : 0 ≤ opts.max_entries)
    (hle : members.length ≤ opts.limit) :
    ∃ steps, ∀ fuel ≥ steps, ∃ rc listing,
      zds_list_members cs fuel opts (some records) = some (rc, listing) ∧
        listing[k]? = some (m.mem opts) := by
  obtain ⟨steps, hsteps⟩ := list_members_eq hdirectory hlimit
  refine ⟨steps, fun fuel hfuel => ?_⟩
  obtain ⟨⟨rc, listing⟩, hresult, hlisting, -⟩ := hsteps fuel hfuel
  rw [listed_all hpattern, List.take_of_length_le (by omega)] at hlisting
  dsimp only at hlisting
  refine ⟨rc, listing, hresult, ?_⟩
  rw [hlisting, List.getElem?_map, hmember]
  rfl

/-- The number of records that were written is what the list of the directory then reports for the
member, or the largest number of the statistics where they are more, if and only if the data set
keeps statistics and the number is in the range of a signed halfword or goes through it as the
largest. -/
theorem line_count_reported_iff (cs : Charset) (sv : StatisticsServices) (recfm_u : Bool)
    (lines_written : ℕ) (stow_list stored : STOW_LIST) (opts : ListOptions)
    (records : List RECORD) (members : List (Member cs)) (k : ℕ) (m : Member cs)
    (hsv : Available cs sv) (hc : stow_list.c = 0)
    (hupdate : update_ispf_statistics cs sv recfm_u true lines_written stow_list = .ok stored)
    (hdirectory : Directory records members) (hmember : members[k]? = some m)
    (hstored : Stored m stored) (hpattern : opts.pattern = []) (hattributes : opts.show_attributes)
    (hlimit : 0 ≤ opts.max_entries) (hle : members.length ≤ opts.limit) :
    ∃ steps, ∀ fuel ≥ steps, ∃ rc listing member,
      zds_list_members cs fuel opts (some records) = some (rc, listing) ∧
      listing[k]? = some member ∧ member.name = m.name ∧
      ((reported_counts member true).1 = some ((min lines_written max_lines : ℕ) : ℤ) ↔
        recfm_u = false ∧
          (lines_written ≤ max_lines ∨ lines_written % 65536 = max_lines)) := by
  obtain ⟨steps, hsteps⟩ := member_listed hdirectory hmember hpattern hlimit hle
  refine ⟨steps, fun fuel hfuel => ?_⟩
  obtain ⟨rc, listing, hresult, hlisting⟩ := hsteps fuel hfuel
  refine ⟨rc, listing, m.mem opts, hresult, hlisting, mem_name opts m, ?_⟩
  cases recfm_u with
  | true =>
    rw [update_ispf_statistics, if_pos rfl] at hupdate
    cases hupdate
    rw [not_reported (mem_of_none hstored hc)]
    simp
  | false =>
    obtain ⟨stored', hsame, hcounted⟩ := update_counted hsv lines_written stow_list
    rw [hsame] at hupdate
    cases hupdate
    obtain ⟨hvalid, hlines⟩ := mem_of_counted hstored hcounted hattributes
    rw [reported_iff hvalid hlines]
    simp

/-! A new member. -/

def new_member_services : StatisticsServices where
  bldl := (BLDL_WARNING, ⟨0, []⟩)
  user := some (ascii.str "IBMUSER ")
  time_local := (0x12, 0x30, 0x00)
  date_local := ⟨0x01, 0x26, (0x03, 0x2F)⟩

def empty_entry : STOW_LIST := ⟨0, List.replicate max_user_data_len 0⟩

def new_stats (n : ℕ) : ISPF_STATS :=
  initial_stats ascii new_member_services (ascii.str "IBMUSER ") n empty_entry.stats

def new_entry (n : ℕ) : STOW_LIST := STOW_LIST.with_stats ⟨15, empty_entry.user_data⟩ (new_stats n)

theorem new_member_available : Available ascii new_member_services where
  bldl := .inr rfl
  user := ⟨_, rfl, rfl⟩
  date := by decide
  updatable := .inl rfl

theorem update_new (n : ℕ) :
    update_ispf_statistics ascii new_member_services false true n empty_entry = .ok (new_entry n) :=
  rfl

theorem new_entry_take (n : ℕ) : (new_entry n).user_data.take 30 = (new_stats n).bytes :=
  List.take_left' (bytes_length (initial_stats_sized _ n rfl _))

/-- The member `A` as it is stored. -/
theorem letter_a : ascii.code 'A' ≠ ascii.code ' ' ∧ ascii.code 'A' ≠ 0 ∧
    ascii.code 'A' ≠ ascii.code '*' := by decide

def new_member (n : ℕ) : Member ascii :=
  { letter_member 'A' 0 letter_a with
    info := 15
    user_data := (new_stats n).bytes
    user_data_length := bytes_length (initial_stats_sized _ n rfl _) }

theorem new_member_stored (n : ℕ) : Stored (new_member n) (new_entry n) where
  info := rfl
  user_data := by
    have hlen : user_data_len (new_entry n) = 30 := by
      change ((15 : UInt8) &&& LEN_MASK).toNat * 2 = 30
      decide
    rw [hlen, new_entry_take]
    rfl

theorem new_member_directory (n : ℕ) :
    Directory [block_of [new_member n]] [new_member n] := by
  apply block_of_directory
  rw [List.flatMap_singleton, Member.bytes_length, show (new_member n).info = 15 from rfl]
  decide

def list_attributes : ListOptions := { list_all with show_attributes := true }

/-- The hypotheses hold of a new member of three records. -/
theorem line_count_of_three : ∃ steps, ∀ fuel ≥ steps, ∃ rc listing member,
    zds_list_members ascii fuel list_attributes (some [block_of [new_member 3]]) =
      some (rc, listing) ∧
    listing[0]? = some member ∧ (reported_counts member true).1 = some 3 := by
  obtain ⟨steps, hsteps⟩ := line_count_reported_iff ascii new_member_services false 3 empty_entry
    (new_entry 3) list_attributes [block_of [new_member 3]] [new_member 3] 0 (new_member 3)
    new_member_available rfl (update_new 3) (new_member_directory 3) rfl (new_member_stored 3) rfl
    rfl (by decide) (by decide)
  refine ⟨steps, fun fuel hle => ?_⟩
  obtain ⟨rc, listing, member, hresult, hmember, -, hreported⟩ := hsteps fuel hle
  exact ⟨rc, listing, member, hresult, hmember, hreported.mpr ⟨rfl, .inl (by decide)⟩⟩

/-- After 40000 records the list reports a negative number, after 65535 none. -/
theorem line_count_wraps :
    (∀ n, update_ispf_statistics ascii new_member_services false true n empty_entry =
      .ok (new_entry n) ∧ Stored (new_member n) (new_entry n)) ∧
    ∃ steps, ∀ fuel ≥ steps, ∃ rc rc' listing listing' member member',
      zds_list_members ascii fuel list_attributes (some [block_of [new_member 40000]]) =
        some (rc, listing) ∧
      listing[0]? = some member ∧ (reported_counts member true).1 = some (-25536) ∧
      zds_list_members ascii fuel list_attributes (some [block_of [new_member 65535]]) =
        some (rc', listing') ∧
      listing'[0]? = some member' ∧ (reported_counts member' true).1 = none := by
  refine ⟨fun n => ⟨update_new n, new_member_stored n⟩, ?_⟩
  have hcounts : ∀ n, ((new_member n).mem list_attributes).stats_valid = true ∧
      ((new_member n).mem list_attributes).cnorc = short_int (UInt16.ofNat n) := fun n =>
    mem_of_counted (new_member_stored n)
      (@initial_counted _ new_member_services (by decide) n _ rfl _ rfl) rfl
  obtain ⟨steps, hsteps⟩ := @member_listed _ list_attributes _ _ 0 _
    (new_member_directory 40000) rfl rfl (by decide) (by decide)
  obtain ⟨steps', hsteps'⟩ := @member_listed _ list_attributes _ _ 0 _
    (new_member_directory 65535) rfl rfl (by decide) (by decide)
  refine ⟨max steps steps', fun fuel hle => ?_⟩
  obtain ⟨rc, listing, hresult, hmember⟩ := hsteps fuel (le_trans (Nat.le_max_left _ _) hle)
  obtain ⟨rc', listing', hresult', hmember'⟩ :=
    hsteps' fuel (le_trans (Nat.le_max_right _ _) hle)
  refine ⟨rc, rc', listing, listing', _, _, hresult, hmember, ?_, hresult', hmember', ?_⟩
  · rw [reported_counts]
    dsimp only
    rw [if_pos ⟨rfl, (hcounts _).1⟩, (hcounts _).2]
    decide +kernel
  · rw [reported_counts]
    dsimp only
    rw [if_pos ⟨rfl, (hcounts _).1⟩, (hcounts _).2]
    decide +kernel

end Zowex.zds
