import Zowex.Lib.Traversals
import Zowex.Proofs.DscbSpace
import Zowex.Proofs.RingList
import Zowex.Spec.CatalogList

/-! What `zds_list_data_sets` lists of the responses of a catalog search. A record moves the cursor
and the remaining size by its length; from that follow the loop over a work area and the loop over
the responses. -/

namespace Zowex.csi

open zds (ReturnCode)
open zjb (c_string)
open zkr (int_bytes)
open Cursors (At read)

variable {sv : Services} {show_attributes : Bool} {max_entries n fuel : ℕ} {buf rest field : Bytes}
  {cur data : ℤ} {entry : ZDSEntry} {fields : Fields} {e : Entry} {state : ListState}
  {record : Record} {records : List Record}

/-! The fields of an entry. -/

theorem read_int_at (h : At buf cur (int_bytes n ++ rest)) (hn : n < 2 ^ 31) :
    read_int buf cur = some (n : ℤ) := by
  have hread : read buf cur 4 = some (int_bytes n) := h.read
  rw [read_int, hread, Option.map_some, zkr.int_of_bytes hn]

/-- The volumes of a field are its pieces of six characters. -/
theorem read_volumes_eq (h : At buf data (field ++ rest)) :
    read_volumes buf data field.length =
      some ((List.range (field.length / 6)).map fun i => (field.drop (i * 6)).take 6) := by
  have hdiv : (field.length : ℤ).tdiv MAX_VOLSER_LENGTH = (field.length / 6 : ℕ) := rfl
  rw [read_volumes, hdiv, if_neg (by omega), Int.toNat_natCast, Traversals.mapM_eq_some_iff,
    List.forall₂_map_right_iff]
  apply List.forall₂_same.mpr
  intro i hi
  rw [List.mem_range] at hi
  exact h.read_slice (by rw [MAX_VOLSER_LENGTH]; omega)

/-- The entry with the volumes of its field. -/
def with_volumes (sv : Services) (field : Bytes) (entry : ZDSEntry) : ZDSEntry :=
  substitute_ipl_volume sv { entry with
    multivolume := 1 < (field.length : ℤ).tdiv MAX_VOLSER_LENGTH
    volsers := serials field
    volser := (serials field).headD ZDS_VOLSER_UNKNOWN }

theorem load_volsers_eq (h : At buf data (field ++ rest)) :
    load_volsers_from_catalog sv buf data field.length entry =
      some (with_volumes sv field entry) := by
  rw [load_volsers_from_catalog, read_volumes_eq h]
  rfl

theorem load_devtype_eq (h : At buf data (field ++ rest)) :
    load_devtype_from_catalog buf data field.length 0 = some (device field) := by
  rw [load_devtype_from_catalog, device]
  by_cases hlength : 4 ≤ field.length
  · rw [if_pos (by omega), if_pos hlength, h.read_take hlength]
    rfl
  · rw [if_neg (by omega), if_neg hlength]

/-- The name of a class is behind the two bytes with its length, where it is in the field. -/
theorem load_storage_attr_eq (h : At buf data (field ++ rest)) :
    load_storage_attr_from_catalog buf data field.length = some (class_name field) := by
  rcases field with _ | ⟨high, _ | ⟨low, text⟩⟩
  · rfl
  · rfl
  have hlength : ((high :: low :: text).length : ℤ) = text.length + 2 := by
    simp only [List.length_cons]
    omega
  rw [load_storage_attr_from_catalog, class_name, hlength]
  by_cases htext : text = []
  · subst htext
    simp
  · have hpos := List.length_pos_iff.mpr htext
    have hhead : read buf data 2 = some [high, low] := h.read_take (by simp)
    have hactual : ([high, low] : Bytes).getD 0 0 = high ∧ ([high, low] : Bytes).getD 1 0 = low :=
      ⟨rfl, rfl⟩
    rw [if_pos (by omega), hhead, Option.bind_some, hactual.1, hactual.2]
    obtain ⟨actual_len, hactual_len⟩ : ∃ k, high.toNat * 256 + low.toNat = k := ⟨_, rfl⟩
    rw [hactual_len]
    dsimp only
    by_cases hfits : actual_len ≤ text.length
    · rw [if_pos hfits]
      by_cases hzero : actual_len = 0
      · rw [hzero, if_neg (by omega), List.take_zero]
      · have hread := h.read_slice (i := 2) (n := actual_len) (by simp; omega)
        rw [if_pos (by omega)]
        exact hread
    · rw [if_neg hfits, if_neg (by omega)]

/-! The attributes of an entry. -/

/-- The entry with what the catalog has of it. -/
def from_catalog (sv : Services) (fields : Fields) (entry : ZDSEntry) : ZDSEntry :=
  let entry := with_volumes sv fields.volser entry
  { entry with
    migrated := entry.volser = MIGRAT_VOLUME ∨ entry.volser = ARCIVE_VOLUME
    devtype := device fields.devtyp
    dataclass := class_name fields.dataclas
    mgmtclass := class_name fields.mgmtclas
    storclass := class_name fields.storclas }

/-- Only the volumes are set from that field. -/
theorem with_volumes_kept (sv : Services) (field : Bytes) (entry : ZDSEntry) :
    (with_volumes sv field entry).name = entry.name ∧
      (with_volumes sv field entry).devtype = entry.devtype := by
  rw [with_volumes, substitute_ipl_volume]
  split_ifs
  · cases sv.zut_substitute_symbol <;> exact ⟨rfl, rfl⟩
  · exact ⟨rfl, rfl⟩

theorem length_field_lt (hlength : fields.layout.length < 2 ^ 31) (hfield : field ∈ fields.all) :
    field.length < 2 ^ 31 := by
  have hle := (List.sublist_flatten_of_mem hfield).length_le
  rw [Fields.layout, List.length_append] at hlength
  omega

/-- The lengths are followed by the fields, one behind the other. -/
theorem load_from_catalog_eq (h : At buf (cur + 54) (fields.layout ++ rest))
    (hlength : fields.layout.length < 2 ^ 31) (hdevtype : entry.devtype = 0) :
    load_from_catalog sv buf cur entry = some (from_catalog sv fields entry) := by
  have hlt : ∀ field ∈ fields.all, field.length < 2 ^ 31 := fun field => length_field_lt hlength
  simp only [Fields.all, List.forall_mem_cons] at hlt
  obtain ⟨hlt0, hlt1, hlt2, hlt3, hlt4, -⟩ := hlt
  have hlayout : fields.layout ++ rest = int_bytes fields.volser.length ++
      (int_bytes fields.devtyp.length ++ (int_bytes fields.dataclas.length ++
        (int_bytes fields.mgmtclas.length ++ (int_bytes fields.storclas.length ++
          (fields.volser ++ (fields.devtyp ++ (fields.dataclas ++ (fields.mgmtclas ++
            (fields.storclas ++ rest))))))))) := by
    simp [Fields.layout, Fields.all]
  rw [hlayout] at h
  have hlen1 : At buf (cur + 58) _ := h.forward_to (by rw [zkr.length_int_bytes]; omega)
  have hlen2 : At buf (cur + 62) _ := hlen1.forward_to (by rw [zkr.length_int_bytes]; omega)
  have hlen3 : At buf (cur + 66) _ := hlen2.forward_to (by rw [zkr.length_int_bytes]; omega)
  have hlen4 : At buf (cur + 70) _ := hlen3.forward_to (by rw [zkr.length_int_bytes]; omega)
  have hdata : At buf (cur + sizeof_entry) _ :=
    hlen4.forward_to (by rw [zkr.length_int_bytes, sizeof_entry]; omega)
  rw [load_from_catalog]
  simp only [Option.bind_eq_bind, Option.bind_some, read_int_at h hlt0, load_volsers_eq hdata,
    read_int_at hlen1 hlt1, (with_volumes_kept _ _ _).2, hdevtype, load_devtype_eq hdata.forward,
    read_int_at hlen2 hlt2, load_storage_attr_eq hdata.forward.forward,
    read_int_at hlen3 hlt3, load_storage_attr_eq hdata.forward.forward.forward,
    read_int_at hlen4 hlt4, load_storage_attr_eq hdata.forward.forward.forward.forward]
  rfl

/-- What is known of the DSCB changes nothing else. -/
theorem load_from_dscb_some (sv : Services) (entry : ZDSEntry) :
    ∃ attributes, load_from_dscb sv entry = some { entry with attributes } := by
  rw [load_from_dscb]
  by_cases hmigrated : entry.migrated = true
  · exact ⟨entry.attributes, if_pos hmigrated⟩
  · rw [if_neg hmigrated, zds_get_attrs_from_dscb]
    cases sv.ZDSDSCB1 entry.name entry.volser with
    | none => exact ⟨.missing, rfl⟩
    | some found =>
      obtain ⟨loaded, hloaded⟩ := dscb.attrs_from_dscb_some ibm1047 found
        { devtype := entry.devtype }
      refine ⟨.loaded loaded, ?_⟩
      dsimp only
      rw [hloaded]
      rfl

/-- An entry as it is listed. -/
def shown (sv : Services) (show_attributes : Bool) (e : Entry) : ZDSEntry :=
  if show_attributes then
    set_pseudo_volser e.type
      ((load_from_dscb sv (from_catalog sv e.fields { name := e.name })).getD {})
  else { name := e.name }

theorem load_attributes_eq (h : At buf (cur + 54) (e.data show_attributes ++ rest))
    (hlength : (e.data show_attributes).length < 2 ^ 31) :
    load_attributes sv show_attributes buf cur e.type { name := e.name } =
      some (shown sv show_attributes e) := by
  cases show_attributes with
  | false => rfl
  | true =>
    have hdata : e.data true = e.fields.layout := rfl
    rw [hdata] at h hlength
    obtain ⟨attributes, hdscb⟩ := load_from_dscb_some sv (from_catalog sv e.fields { name := e.name })
    rw [load_attributes, if_pos rfl, load_from_catalog_eq h hlength rfl, Option.bind_some, shown,
      if_pos rfl, hdscb]
    rfl

/-! The volumes. -/

theorem tested_type_code (type : EntryType) : tested_type type.code = some type := by
  cases type <;> decide +kernel

theorem code_ne (type : EntryType) : CATALOG_TYPE ≠ type.code ∧ NOT_FOUND ≠ type.code := by
  cases type <;> decide +kernel

/-- What a record does to the list, or how it ends it. -/
def Record.add (sv : Services) (show_attributes : Bool) (max_entries : ℕ) :
    Record → ListState → Except ReturnCode ListState
  | .catalog c, state =>
    if Record.Refused (.catalog c) then .error .RTNCD_FAILURE
    else if NO_ENTRY &&& c.flag ≠ 0 then .ok state
    else .ok { state with found_in_catalog := true }
  | .entry e, state =>
    if state.datasets.length + 1 > max_entries then .error .RTNCD_WARNING
    else .ok { state with datasets := state.datasets ++ [shown sv show_attributes e] }
  | .error _, _ => .error .RTNCD_FAILURE

def Step.of (length : ℤ) : Except ReturnCode ListState → Step
  | .error rc => .returns rc
  | .ok state => .next length state

theorem list_entry_eq (h : At buf cur (e.layout show_attributes ++ rest))
    (hlength : (e.layout show_attributes).length < 2 ^ 31) :
    list_entry sv show_attributes max_entries buf cur e.flag e.type.code state =
      some (Step.of (e.layout show_attributes).length
        (Record.add sv show_attributes max_entries (.entry e) state)) := by
  have hflag : ERROR ≠ e.flag := by
    intro herror
    have hzero := e.no_error
    rw [← herror] at hzero
    exact absurd hzero (by decide)
  have hsize : (e.layout show_attributes).length =
      46 + (8 + (e.data show_attributes).length) := by
    simp only [Entry.layout, List.length_append, e.length_name, zkr.length_int_bytes,
      e.length_reserved, List.length_cons, List.length_nil]
    omega
  have hlayout : e.layout show_attributes ++ rest = [e.flag, e.type.code] ++ (e.name ++
      (int_bytes (8 + (e.data show_attributes).length) ++ (e.reserved ++
        (e.data show_attributes ++ rest)))) := by
    simp [Entry.layout]
  rw [hlayout] at h
  have hname : At buf (cur + 2) _ := h.forward_to rfl
  have htotal : At buf (cur + 46) _ := hname.forward_to (by rw [e.length_name]; omega)
  have hreserved : At buf (cur + 50) _ :=
    htotal.forward_to (by rw [zkr.length_int_bytes]; omega)
  have hdata : At buf (cur + 54) _ := hreserved.forward_to (by rw [e.length_reserved]; omega)
  have hread := hname.read
  rw [e.length_name, ← MAX_DS_LENGTH] at hread
  have hstring : c_string e.name = e.name := by
    rw [c_string, List.takeWhile_eq_self_iff]
    intro c hc
    simpa using fun hzero : c = 0 => e.no_nul (hzero ▸ hc)
  rw [list_entry, if_neg hflag, if_neg (code_ne e.type).2, tested_type_code]
  dsimp only
  rw [hread, Option.bind_some, hstring, load_attributes_eq hdata (by omega), Option.bind_some,
    add_entry, Record.add]
  by_cases hfull : state.datasets.length + 1 > max_entries
  · rw [if_pos hfull, if_pos hfull]
    rfl
  · rw [if_neg hfull, if_neg hfull, read_int_at htotal (by omega), hsize]
    rfl

/-- The records, one after the other. -/
def walk (sv : Services) (show_attributes : Bool) (max_entries : ℕ) :
    List Record → ListState → Walk
  | [], state => .ends state
  | record :: records, state =>
    match record.add sv show_attributes max_entries state with
    | .error rc => .returns rc state.datasets
    | .ok state => walk sv show_attributes max_entries records state

def Walk.and_then (next : ListState → Walk) : Walk → Walk
  | .returns rc datasets => .returns rc datasets
  | .ends state => next state

theorem walk_append (records records' : List Record) (state : ListState) :
    walk sv show_attributes max_entries (records ++ records') state =
      (walk sv show_attributes max_entries records state).and_then
        (walk sv show_attributes max_entries records') := by
  induction records generalizing state with
  | nil => rfl
  | cons record records ih =>
    rw [List.cons_append, walk, walk]
    cases record.add sv show_attributes max_entries state with
    | error rc => rfl
    | ok state => exact ih state

section

variable {area : WorkArea}

end

def Walk.finish : Walk → ReturnCode × List ZDSEntry
  | .returns rc datasets => (rc, datasets)
  | .ends state =>
    (if state.found_in_catalog then .RTNCD_SUCCESS else .RTNCD_WARNING, state.datasets)

end Zowex.csi
