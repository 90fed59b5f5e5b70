import Zowex.Spec.Proclib

/-! Where the list of the procedure libraries stays in its buffer. The loops copy the data sets of
all libraries up to the one that is one too many, and what they return is lost. -/

namespace Zowex.zjp

open zjb

variable {jes : Properties} {area : Area} {listing : Listing} {names : List Bytes}

theorem Area.read_memcpy (area : Area) (place : ℕ) (data : Bytes) :
    (area.memcpy place data).read place data.length = data := by
  apply List.ext_getElem
  · simp [Area.read]
  · intro i hi hdata
    have hlt : place + i < place + data.length := by omega
    have hplace : place ≤ place + i := by omega
    simp only [Area.read, List.getElem_map, List.getElem_range', Area.memcpy, Nat.one_mul]
    rw [if_pos ⟨hplace, hlt⟩, Nat.add_sub_cancel_left, List.getD_eq_getElem?_getD,
      List.getElem?_eq_getElem hdata, Option.getD_some]

/-- What stands before the place is left as it is. -/
theorem Area.read_memcpy_before {place start length : ℕ} {data : Bytes}
    (h : start + length ≤ place) :
    (area.memcpy place data).read start length = area.read start length := by
  apply List.map_congr_left
  intro i hi
  have hbefore : i < place := by
    have := (List.mem_range'_1.mp hi).2
    omega
  have hnot : ¬ (place ≤ i ∧ i < place + data.length) := by omega
  exact if_neg hnot

theorem Area.dsns_succ (area : Area) (entries : ℕ) : area.dsns (entries + 1) =
    area.dsns entries ++ [area.read (entries * DSN_ENTRY_SIZE) DSN_ENTRY_SIZE] := by
  rw [Area.dsns, List.range_succ, List.map_append, List.map_singleton, ← Area.dsns]

/-- What the loops have copied. -/
structure Copied (names : List Bytes) (listing : Listing) : Prop where
  entries : listing.entries = names.length
  dsn_buffer : listing.dsn_buffer = names.length * DSN_ENTRY_SIZE
  read : listing.area.dsns names.length = names
  written : listing.area.written =
    (List.range names.length).map fun i => (i * DSN_ENTRY_SIZE, DSN_ENTRY_SIZE)

theorem Copied.copy (h : Copied names listing) (dsn : Dsn) :
    Copied (names ++ [dsn.bytes]) (listing.copy dsn) where
  entries := by simp [Listing.copy, h.entries]
  dsn_buffer := by
    simp only [Listing.copy, h.dsn_buffer, List.length_append, List.length_singleton]
    rw [Nat.add_mul, Nat.one_mul]
  read := by
    have hbefore : ∀ i < names.length, (listing.copy dsn).area.read (i * DSN_ENTRY_SIZE)
        DSN_ENTRY_SIZE = listing.area.read (i * DSN_ENTRY_SIZE) DSN_ENTRY_SIZE := by
      intro i hi
      apply Area.read_memcpy_before
      rw [h.dsn_buffer, ← Nat.succ_mul]
      exact Nat.mul_le_mul_right _ hi
    have hlast : (listing.copy dsn).area.read (names.length * DSN_ENTRY_SIZE) DSN_ENTRY_SIZE =
        dsn.bytes := by
      have hread := listing.area.read_memcpy (names.length * DSN_ENTRY_SIZE) dsn.bytes
      rw [dsn.length_eq] at hread
      rw [Listing.copy, h.dsn_buffer, hread]
    have hnames : (listing.copy dsn).area.dsns names.length = names :=
      (List.map_congr_left fun i hi => hbefore i (List.mem_range.mp hi)).trans h.read
    rw [List.length_append, List.length_singleton, Area.dsns_succ, hnames, hlast]
  written := by
    rw [List.length_append, List.length_singleton, List.range_succ, List.map_append, ← h.written,
      List.map_singleton, Listing.copy, Area.memcpy, h.dsn_buffer, dsn.length_eq]

/-- The loop ends behind the one data set that is too many. -/
theorem Copied.data_sets (h : Copied names listing) (hroom : names.length ≤ MAX_DSN_ENTRIES)
    (dsns : List Dsn) :
    Copied (names ++ (dsns.map Field.bytes).take (MAX_DSN_ENTRIES + 1 - names.length))
      (copy_data_sets dsns listing).2 := by
  induction dsns generalizing names listing with
  | nil => simpa [copy_data_sets] using h
  | cons dsn dsns ih =>
    have hcopy := h.copy dsn
    have hlength : (names ++ [dsn.bytes]).length = names.length + 1 := by simp
    have hroom' : MAX_DSN_ENTRIES + 1 - names.length =
        MAX_DSN_ENTRIES + 1 - (names ++ [dsn.bytes]).length + 1 := by omega
    rw [copy_data_sets, List.map_cons, hroom', List.take_succ_cons, List.append_cons]
    by_cases hfull : (listing.copy dsn).entries > MAX_DSN_ENTRIES
    · have hnone : MAX_DSN_ENTRIES + 1 - (names ++ [dsn.bytes]).length = 0 := by
        rw [hcopy.entries] at hfull
        omega
      simp only [if_pos hfull]
      rw [hnone, List.take_zero, List.append_nil]
      exact ⟨hcopy.entries, hcopy.dsn_buffer, hcopy.read, hcopy.written⟩
    · simp only [if_neg hfull]
      rw [hcopy.entries] at hfull
      exact ih hcopy (by omega)

theorem copy_data_sets_append (dsns more : List Dsn) (listing : Listing) :
    copy_data_sets (dsns ++ more) listing =
      if (copy_data_sets dsns listing).1 ≠ RTNCD_SUCCESS then copy_data_sets dsns listing
      else copy_data_sets more (copy_data_sets dsns listing).2 := by
  induction dsns generalizing listing with
  | nil => rfl
  | cons dsn dsns ih =>
    rw [List.cons_append, copy_data_sets, copy_data_sets]
    by_cases hfull : (listing.copy dsn).entries > MAX_DSN_ENTRIES
    · simp only [if_pos hfull]
      rfl
    · simp only [if_neg hfull]
      exact ih _

/-- The loops go through the data sets of all libraries as through those of one. -/
theorem copy_libraries_eq (jprclptr : List (List Dsn)) (listing : Listing) :
    copy_libraries jprclptr listing = copy_data_sets jprclptr.flatten listing := by
  induction jprclptr generalizing listing with
  | nil => rfl
  | cons jprhdr jprnxtp ih =>
    rw [copy_libraries, List.flatten_cons, copy_data_sets_append, ← ih]

/-! The call. -/

/-- The memory and the handle that the loops begin with. -/
def begin_listing (behind : ℕ → UInt8) (zjb : ZJB) : Listing :=
  { area := { memory := fun i => if i < MAX_DSN_ENTRY_SIZE then 0 else behind i }
    detail_rc := zjb.detail_rc }

theorem copied_of_listed {jprclptr : List (List Dsn)} (behind : ℕ → UInt8) (zjb : ZJB)
    (h : jes.Listed jprclptr) : Copied (jes.names.take (MAX_DSN_ENTRIES + 1))
      (copy_libraries jprclptr (begin_listing behind zjb)).2 := by
  have hstart : Copied [] (begin_listing behind zjb) := ⟨rfl, rfl, rfl, rfl⟩
  have hnames : jes.names = jprclptr.flatten.map Field.bytes := by
    rw [Properties.names, h.2]
  rw [hnames, copy_libraries_eq]
  exact hstart.data_sets (Nat.zero_le _) _

/-- The buffer after the call is as the loops leave it, and the return code is the one of the last
request. -/
theorem list_proclib_of_listed {jprclptr : List (List Dsn)} (behind : ℕ → UInt8) (zjb : ZJB)
    (h : jes.Listed jprclptr) :
    (zjb_list_proclib jes behind zjb).area =
        (copy_libraries jprclptr (begin_listing behind zjb)).2.area ∧
      (zjb_list_proclib jes behind zjb).entries =
        (copy_libraries jprclptr (begin_listing behind zjb)).2.entries := by
  have hroom : ¬ MAX_DSN_ENTRY_SIZE < MAX_DSN_ENTRY_SIZE := lt_irrefl _
  have hinit : ¬ jes.init_ssib ≠ 0 := fun hne => hne h.1
  rw [zjb_list_proclib, ZJBMLPRC, if_neg hroom, if_neg hinit, h.2]
  exact ⟨rfl, rfl⟩

theorem list_proclib_of_not_listed (behind : ℕ → UInt8) (zjb : ZJB)
    (h : ∀ jprclptr, ¬ jes.Listed jprclptr) :
    (zjb_list_proclib jes behind zjb).rc = RTNCD_FAILURE ∧
      (zjb_list_proclib jes behind zjb).area.written = [] ∧
      (zjb_list_proclib jes behind zjb).entries = 0 := by
  have hroom : ¬ MAX_DSN_ENTRY_SIZE < MAX_DSN_ENTRY_SIZE := lt_irrefl _
  rw [zjb_list_proclib, ZJBMLPRC, if_neg hroom]
  by_cases hinit : jes.init_ssib = 0
  · rw [if_neg (not_not_intro hinit)]
    rcases hrequest : jes.request with jprclptr | _ | _
    · exact absurd ⟨hinit, hrequest⟩ (h jprclptr)
    · exact ⟨rfl, rfl, rfl⟩
    · exact ⟨rfl, rfl, rfl⟩
  · rw [if_pos hinit]
    exact ⟨rfl, rfl, rfl⟩

theorem names_of_listed {jprclptr : List (List Dsn)} (h : jes.Listed jprclptr) :
    jes.names.length = jprclptr.flatten.length := by
  rw [Properties.names, h.2, List.length_map]

theorem contained_of_not_listed (behind : ℕ → UInt8) (zjb : ZJB)
    (h : ∀ jprclptr, ¬ jes.Listed jprclptr) : Contained jes (zjb_list_proclib jes behind zjb) := by
  obtain ⟨hrc, hwritten, hentries⟩ := list_proclib_of_not_listed behind zjb h
  refine ⟨?_, ?_, ?_⟩
  · rw [hwritten]
    exact fun _ hmem => absurd hmem List.not_mem_nil
  · rw [hentries]
    exact List.nil_prefix
  · rw [hrc]
    exact fun hsuccess => absurd hsuccess (by decide)

theorem contained_of_listed {jprclptr : List (List Dsn)} (behind : ℕ → UInt8) (zjb : ZJB)
    (h : jes.Listed jprclptr) : Contained jes (zjb_list_proclib jes behind zjb) ↔
      jprclptr.flatten.length ≤ MAX_DSN_ENTRIES := by
  obtain ⟨harea, hentries⟩ := list_proclib_of_listed behind zjb h
  have hcopied := copied_of_listed behind zjb h
  rw [← names_of_listed h]
  have hread := hcopied.read
  have hcount := hcopied.entries
  have hwritten := hcopied.written
  rw [← harea] at hread hwritten
  rw [← hentries] at hcount
  constructor
  · intro hcontained
    by_contra hmore
    have hlength : (jes.names.take (MAX_DSN_ENTRIES + 1)).length = MAX_DSN_ENTRIES + 1 := by
      rw [List.length_take]
      omega
    rw [hlength] at hwritten
    -- the last area begins where the buffer ends
    have hlast := hcontained.within (MAX_DSN_ENTRIES * DSN_ENTRY_SIZE, DSN_ENTRY_SIZE) (by
      rw [hwritten]
      exact List.mem_map_of_mem (List.mem_range.mpr (Nat.lt_succ_self _)))
    exact absurd hlast (by decide)
  · intro hroom
    have hall : jes.names.take (MAX_DSN_ENTRIES + 1) = jes.names :=
      List.take_of_length_le (by omega)
    rw [hall] at hread hcount hwritten
    have hlisted : (zjb_list_proclib jes behind zjb).area.dsns
        (zjb_list_proclib jes behind zjb).entries = jes.names := by rw [hcount, hread]
    refine ⟨?_, ?_, fun hrc => ⟨?_, ?_⟩⟩
    · rw [hwritten]
      intro area hmem
      obtain ⟨i, hi, rfl⟩ := List.mem_map.mp hmem
      have hlt := List.mem_range.mp hi
      simp only [MAX_DSN_ENTRY_SIZE]
      rw [← Nat.succ_mul]
      exact Nat.mul_le_mul_right _ (by omega)
    · rw [hlisted]
    · exact (if_pos hrc).trans hlisted
    · rw [hcount]
      exact Nat.mul_le_mul_right _ hroom

/-- The list is contained in the buffer where the libraries have no more data sets than it has room
for. -/
theorem contained_iff (jes : Properties) (behind : ℕ → UInt8) (zjb : ZJB) :
    Contained jes (zjb_list_proclib jes behind zjb) ↔
      ∀ jprclptr, jes.Listed jprclptr → jprclptr.flatten.length ≤ MAX_DSN_ENTRIES := by
  by_cases hlisted : ∃ jprclptr, jes.Listed jprclptr
  · obtain ⟨jprclptr, hlisted⟩ := hlisted
    rw [contained_of_listed behind zjb hlisted]
    refine ⟨fun hroom other hother => ?_, fun h => h jprclptr hlisted⟩
    rwa [← names_of_listed hother, names_of_listed hlisted]
  · have hnone : ∀ jprclptr, ¬ jes.Listed jprclptr := fun jprclptr h => hlisted ⟨jprclptr, h⟩
    exact ⟨fun _ jprclptr h => absurd h (hnone jprclptr),
      fun _ => contained_of_not_listed behind zjb hnone⟩

/-- Two libraries, with one data set more than there is room for. -/
def many_data_sets : Properties where
  init_ssib := 0
  request := .gives [List.replicate 100 (Field.filled _ 0xC1), [Field.filled _ 0xC2]]
  free := some 0

theorem one_too_many :
    (zjb_list_proclib many_data_sets (fun _ => 0) {}).rc = RTNCD_SUCCESS ∧
      ¬ Contained many_data_sets (zjb_list_proclib many_data_sets (fun _ => 0) {}) := by
  have hlisted : many_data_sets.Listed
      [List.replicate 100 (Field.filled _ 0xC1), [Field.filled _ 0xC2]] := ⟨rfl, rfl⟩
  refine ⟨rfl, fun hcontained => ?_⟩
  have hroom := (contained_of_listed _ _ hlisted).mp hcontained
  exact absurd hroom (by decide +kernel)

end Zowex.zjp
