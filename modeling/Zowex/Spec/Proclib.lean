import Zowex.Spec.Jobs

/-! The list of the procedure libraries: `ZJBMLPRC` of `zjbm.c` fills a buffer of its caller, which
is `zjb_list_proclib` of `zjb.cpp`. -/

namespace Zowex.zjp

open zjb

def DSN_ENTRY_SIZE : ℕ := 44
def MAX_DSN_ENTRIES : ℕ := 100
def MAX_DSN_ENTRY_SIZE : ℕ := MAX_DSN_ENTRIES * DSN_ENTRY_SIZE

/-- `jprddsn`. -/
abbrev Dsn := Field DSN_ENTRY_SIZE

/-- What the subsystem does of the request for the JES properties. -/
structure Properties where
  init_ssib : ℤ
  /-- The data sets of each procedure library of the chain. -/
  request : Answer (List (List Dsn))
  /-- The return code of the request to free the storage, none for an abend. -/
  free : Option ℤ

/-- The memory from the begin of the buffer on, and the areas of it that were written. -/
structure Area where
  memory : ℕ → UInt8
  written : List (ℕ × ℕ) := []

def Area.memcpy (area : Area) (place : ℕ) (data : Bytes) : Area where
  memory i := if place ≤ i ∧ i < place + data.length then data.getD (i - place) 0 else area.memory i
  written := area.written ++ [(place, data.length)]

def Area.read (area : Area) (place length : ℕ) : Bytes :=
  (List.range' place length).map area.memory

/-- The entries of the buffer, one behind the other. -/
def Area.dsns (area : Area) (entries : ℕ) : List Bytes :=
  (List.range entries).map fun i => area.read (i * DSN_ENTRY_SIZE) DSN_ENTRY_SIZE

structure Listing where
  area : Area
  dsn_buffer : ℕ := 0
  entries : ℕ := 0
  detail_rc : ℤ

def Listing.copy (listing : Listing) (dsn : Dsn) : Listing :=
  { listing with
    area := listing.area.memcpy listing.dsn_buffer dsn.bytes
    dsn_buffer := listing.dsn_buffer + DSN_ENTRY_SIZE
    entries := listing.entries + 1 }

/-- The loop over the data sets of a library, with the return code. -/
def copy_data_sets : List Dsn → Listing → ℤ × Listing
  | [], listing => (RTNCD_SUCCESS, listing)
  | dsn :: jprdsinf, listing =>
    let listing := listing.copy dsn
    if listing.entries > MAX_DSN_ENTRIES then
      (RTNCD_FAILURE, { listing with detail_rc := ZJB_RTNCD_INSUFFICIENT_BUFFER })
    else copy_data_sets jprdsinf listing

/-- The loop over the libraries. -/
def copy_libraries : List (List Dsn) → Listing → ℤ × Listing
  | [], listing => (RTNCD_SUCCESS, listing)
  | jprhdr :: jprnxtp, listing =>
    let (rc, listing) := copy_data_sets jprhdr listing
    if rc ≠ RTNCD_SUCCESS then (rc, listing) else copy_libraries jprnxtp listing

structure Listed where
  rc : ℤ
  handle : ZJB
  entries : ℕ
  area : Area

/-- The buffer is one that the caller has. -/
def ZJBMLPRC (jes : Properties) (zjb : ZJB) (area : Area) (buffer_size : ℕ) : Listed :=
  if buffer_size < MAX_DSN_ENTRY_SIZE then
    ⟨RTNCD_FAILURE, { zjb with detail_rc := ZJB_RTNCD_INSUFFICIENT_BUFFER }, 0, area⟩
  else if jes.init_ssib ≠ 0 then
    ⟨RTNCD_FAILURE, { zjb with detail_rc := ZJB_RTNCD_SERVICE_FAILURE }, 0, area⟩
  else
    match jes.request with
    | .abends => ⟨RTNCD_FAILURE, { zjb with detail_rc := ZJB_RTNCD_UNEXPECTED_ERROR }, 0, area⟩
    | .refuses => ⟨RTNCD_FAILURE, zjb, 0, area⟩
    | .gives jprclptr =>
      let (_, listing) := copy_libraries jprclptr { area, detail_rc := zjb.detail_rc }
      -- the return code of the loops gives way to the one of the last request
      let (rc, detail_rc) :=
        match jes.free with
        | none => (RTNCD_FAILURE, ZJB_RTNCD_UNEXPECTED_ERROR)
        | some rc => (rc, listing.detail_rc)
      ⟨rc, { zjb with detail_rc }, listing.entries, listing.area⟩

structure ProclibRun extends Listed where
  proclib : List Bytes

/-- The buffer is on the stack, with other storage behind it. -/
def zjb_list_proclib (jes : Properties) (behind : ℕ → UInt8) (zjb : ZJB) : ProclibRun :=
  let buffer : Area := { memory := fun i => if i < MAX_DSN_ENTRY_SIZE then 0 else behind i }
  let listed := ZJBMLPRC jes zjb buffer MAX_DSN_ENTRY_SIZE
  { listed with
    proclib :=
      if listed.rc = RTNCD_SUCCESS then listed.area.dsns listed.entries else [] }

/-- The names of all data sets, in the order of the chain. -/
def Properties.names (jes : Properties) : List Bytes :=
  match jes.request with
  | .gives jprclptr => jprclptr.flatten.map Field.bytes
  | _ => []

structure Contained (jes : Properties) (run : ProclibRun) : Prop where
  within : ∀ area ∈ run.area.written, area.1 + area.2 ≤ MAX_DSN_ENTRY_SIZE
  in_order : run.area.dsns run.entries <+: jes.names
  complete : run.rc = RTNCD_SUCCESS →
    run.proclib = jes.names ∧ run.entries * DSN_ENTRY_SIZE ≤ MAX_DSN_ENTRY_SIZE

/-- The subsystem gives a chain. -/
def Properties.Listed (jes : Properties) (jprclptr : List (List Dsn)) : Prop :=
  jes.init_ssib = 0 ∧ jes.request = .gives jprclptr

end Zowex.zjp
