import Zowex.Spec.Zam

/-! The blocks against the records written. Between two records the buffer holds some records that
are in no block yet, behind the descriptor word of the block where there is one. -/

namespace Zowex.zam

open Records IoCtrl

variable {cs : Charset} {dcb : Dcb} {ioc : IoCtrl} {done pending : List Bytes} {data : Bytes}

theorem validate_fixed (h : validate_dcb_attributes dcb = some (.ok ())) (hf : dcb.dcbrecf = true) :
    1 ≤ dcb.dcbblksi.toInt ∧ dcb.dcblrecl.toInt ≠ 0 ∧
      dcb.dcbblksi.toInt.tmod dcb.dcblrecl.toInt = 0 := by
  simp only [validate_dcb_attributes, hf] at h
  split_ifs at h with h1 h2 h3 <;> simp_all

/-- The lengths that are accepted for records of variable length. -/
theorem validate_variable (h : validate_dcb_attributes dcb = some (.ok ()))
    (hf : dcb.dcbrecf = false) (hroom : 0 ≤ dcb.dcblrecl.toInt) :
    dcb.dcblrecl.toInt + 4 ≤ dcb.dcbblksi.toInt := by
  have hshort := dcb.dcblrecl.toInt_lt
  have hblock := dcb.dcbblksi.toInt_lt
  simp only [validate_dcb_attributes, hf, to_unsigned, sizeof_descriptor] at h
  split_ifs at h with h1 h2 h3 <;> simp_all
  omega

/-! The buffer. -/

theorem store_eq {place : ℕ} {before old after new : Bytes}
    (hbuffer : ioc.buffer = before ++ old ++ after) (hplace : place = before.length)
    (hlength : old.length = new.length) :
    ioc.store place new = some { ioc with buffer := before ++ new ++ after } := by
  rw [IoCtrl.store, hbuffer, hplace, store_append before after hlength]
  rfl

/-- What `memset` and `memcpy` make of a record together. -/
theorem memcpy_memset (data : Bytes) {before after : Bytes} {n length : ℤ} (c : UInt8)
    (hbuffer : ioc.buffer = before ++ after) (hfree : ioc.free_location = before.length)
    (hn : 0 ≤ n) (hroom : n.toNat ≤ after.length) (hlength : 0 ≤ length)
    (hle : (data.take length.toNat).length ≤ n.toNat) :
    ((ioc.memset ioc.free_location c n).bind fun ioc => ioc.memcpy ioc.free_location data length) =
      some { ioc with
        buffer := before ++ (data.take length.toNat).rightpad n.toNat c ++
          after.drop n.toNat } := by
  obtain ⟨memory, hset, hcopy⟩ :=
    Option.bind_eq_some_iff.mp (store_padded before c hroom hle)
  simp only [IoCtrl.memset, if_neg (not_lt.mpr hn), IoCtrl.store, hbuffer, hfree, hset,
    Option.map_some, Option.bind_some, IoCtrl.memcpy, if_neg (not_lt.mpr hlength), hcopy]

/-- The blocks hold the records written but for those that are pending. -/
structure Written (cs : Charset) (dcb : Dcb) (done pending : List Bytes) (ioc : IoCtrl) :
    Prop where
  same_dcb : ioc.dcb = dcb
  opened : ioc.dcbofopn = true
  size : (ioc.buffer.length : ℤ) = dcb.dcbblksi.toInt
  free : ioc.free_location = ioc.bytes_in_buffer
  lines : ioc.lines_written = done.length
  bounded : ∀ block ∈ ioc.blocks, (block.length : ℤ) ≤ dcb.dcbblksi.toInt
  deblocked : ∃ blocks, ioc.blocks.mapM dcb.deblock = some blocks ∧
    blocks.flatten ++ pending = done.map (dcb.record cs)

/-- What is pending makes a block. -/
theorem Written.write_sync (h : Written cs dcb done pending ioc) {length : ℕ}
    (hbounded : (length : ℤ) ≤ dcb.dcbblksi.toInt)
    (hblock : dcb.deblock (ioc.buffer.take length) = some pending) (bytes : ℕ) :
    Written cs dcb done []
      { ioc.write_sync length with free_location := bytes, bytes_in_buffer := bytes } := by
  obtain ⟨hdcb, hopened, hsize, -, hlines, hblocks, blocks, hread, hdone⟩ := h
  refine ⟨hdcb, hopened, hsize, rfl, hlines, fun block hmem => ?_, blocks ++ [pending], ?_, ?_⟩
  · rcases List.mem_append.mp hmem with hold | hnew
    · exact hblocks block hold
    · rw [List.mem_singleton.mp hnew]
      have hle := List.length_take_le length ioc.buffer
      omega
  · simp [IoCtrl.write_sync, hread, hblock]
  · simpa using hdone

/-! Records of fixed length. -/

/-- The buffer holds the pending records. -/
structure FixedFill (cs : Charset) (dcb : Dcb) (done pending : List Bytes) (ioc : IoCtrl) :
    Prop extends Written cs dcb done pending ioc where
  lengths : ∀ r ∈ pending, r.length = dcb.dcblrecl.toInt.toNat
  bytes : ioc.bytes_in_buffer = pending.flatten.length
  below : (ioc.bytes_in_buffer : ℤ) < dcb.dcbblksi.toInt
  buffer : ∃ after, ioc.buffer = pending.flatten ++ after

theorem record_fixed (hv : dcb.dcbrecv = false) (data : Bytes) : dcb.record cs data =
    data.take dcb.dcblrecl.toInt.toNat ++ List.replicate
      (dcb.dcblrecl.toInt.toNat - (data.take dcb.dcblrecl.toInt.toNat).length) (cs.code ' ') := by
  rw [Dcb.record, hv, if_neg (by simp)]
  rfl

theorem length_record_fixed (hv : dcb.dcbrecv = false) (data : Bytes) :
    (dcb.record cs data).length = dcb.dcblrecl.toInt.toNat := by
  rw [record_fixed hv, List.length_append, List.length_replicate, List.length_take]
  omega

theorem length_flatten_of_lengths {n : ℕ} {records : List Bytes}
    (h : ∀ r ∈ records, r.length = n) : records.flatten.length = records.length * n := by
  rw [List.length_flatten, List.map_congr_left h, List.map_const', List.sum_replicate, smul_eq_mul]

/-- A block that is not full has room for another record. -/
theorem room_of_below {block lrecl bytes count : ℕ} (hdvd : lrecl ∣ block)
    (hbytes : bytes = count * lrecl) (hbelow : bytes < block) : bytes + lrecl ≤ block := by
  obtain ⟨size, rfl⟩ := hdvd
  have hcount : count < size := by
    by_contra hge
    have := Nat.mul_le_mul_right lrecl (not_lt.mp hge)
    rw [Nat.mul_comm lrecl] at hbelow
    omega
  have := Nat.mul_le_mul_right lrecl hcount
  rw [Nat.succ_mul] at this
  rw [Nat.mul_comm lrecl, hbytes]
  exact this

/-- The length that is left of a record. -/
theorem take_cut (data : Bytes) {length limit : ℤ} (hlimit : 0 ≤ limit)
    (hlength : length = if (data.length : ℤ) > limit then limit else data.length) :
    0 ≤ length ∧ data.take length.toNat = data.take limit.toNat := by
  split_ifs at hlength with hlong
  · exact ⟨hlength ▸ hlimit, by rw [hlength]⟩
  · refine ⟨by omega, ?_⟩
    rw [List.take_of_length_le (by omega), List.take_of_length_le (by omega)]

/-- A record in the buffer that is in no block yet. -/
theorem Written.snoc (h : Written cs dcb done pending ioc) {buffer : Bytes}
    (hsize : buffer.length = ioc.buffer.length) (data : Bytes) (bytes : ℕ) :
    Written cs dcb (done ++ [data]) (pending ++ [dcb.record cs data])
      { ioc with
        buffer := buffer
        lines_written := ioc.lines_written + 1
        bytes_in_buffer := ioc.bytes_in_buffer + bytes
        free_location := ioc.free_location + bytes } := by
  obtain ⟨hdcb, hopened, hsame, hfree, hlines, hbounded, blocks, hread, hdone⟩ := h
  refine ⟨hdcb, hopened, hsize ▸ hsame, ?_, ?_, hbounded, blocks, hread, ?_⟩
  · dsimp only
    rw [hfree]
  · dsimp only
    rw [hlines, List.length_append]
    rfl
  · rw [← List.append_assoc, hdone, List.map_append]
    rfl

/-- A record goes into the buffer, and a full buffer into a block. -/
theorem FixedFill.write (h : FixedFill cs dcb done pending ioc) (hv : dcb.dcbrecv = false)
    (hpositive : 0 < dcb.dcblrecl.toInt)
    (hdvd : dcb.dcblrecl.toInt.toNat ∣ dcb.dcbblksi.toInt.toNat) (data : Bytes) :
    ∃ ioc' pending', ioc.write_output_bpam cs data = some ioc' ∧
      FixedFill cs dcb (done ++ [data]) pending' ioc' := by
  obtain ⟨hwritten, hlengths, hbytes, hbelow, after, hbuffer⟩ := h
  have hsize := hwritten.size
  have hroom := room_of_below hdvd (hbytes.trans (length_flatten_of_lengths hlengths)) (by omega)
  have hafter : dcb.dcblrecl.toInt.toNat ≤ after.length := by
    rw [hbuffer, List.length_append, ← hbytes] at hsize
    omega
  obtain ⟨hnonneg, htake⟩ := take_cut data hpositive.le rfl
  have hstored := memcpy_memset data (cs.code ' ') hbuffer
    (hwritten.free.trans hbytes) hpositive.le hafter hnonneg (htake ▸ List.length_take_le _ _)
  have hrecord : (data.take dcb.dcblrecl.toInt.toNat).rightpad dcb.dcblrecl.toInt.toNat
      (cs.code ' ') = dcb.record cs data := by rw [Dcb.record, hv, if_neg (by simp)]
  rw [htake, hrecord] at hstored
  have hlength : (pending.flatten ++ dcb.record cs data ++
      after.drop dcb.dcblrecl.toInt.toNat).length = ioc.buffer.length := by
    rw [hbuffer]
    simp only [List.length_append, List.length_drop, length_record_fixed hv]
    omega
  have hcopied := hwritten.snoc hlength data dcb.dcblrecl.toInt.toNat
  have hflat : pending.flatten ++ dcb.record cs data =
      (pending ++ [dcb.record cs data]).flatten := by simp
  have hlengths' : ∀ r ∈ pending ++ [dcb.record cs data],
      r.length = dcb.dcblrecl.toInt.toNat := by
    intro r hr
    rcases List.mem_append.mp hr with hr | hr
    · exact hlengths r hr
    · rw [List.mem_singleton.mp hr]
      exact length_record_fixed hv data
  have hbytes' : ioc.bytes_in_buffer + dcb.dcblrecl.toInt.toNat =
      (pending ++ [dcb.record cs data]).flatten.length := by
    rw [← hflat, List.length_append, hbytes, length_record_fixed hv]
  simp only [write_output_bpam, hwritten.same_dcb, hv, Bool.false_eq_true, if_false,
    handle_fixed_record, Option.bind_eq_bind]
  rw [← Option.bind_assoc, hstored, Option.bind_some]
  by_cases hfull : dcb.dcbblksi.toInt ≤ (ioc.bytes_in_buffer + dcb.dcblrecl.toInt.toNat : ℕ)
  · have hwhole : dcb.dcbblksi.toInt.toNat =
        (pending ++ [dcb.record cs data]).flatten.length := by
      rw [← hbytes']
      omega
    have hdeblock : dcb.deblock ((pending.flatten ++ dcb.record cs data ++
        after.drop dcb.dcblrecl.toInt.toNat).take dcb.dcbblksi.toInt.toNat) =
        some (pending ++ [dcb.record cs data]) := by
      rw [hflat, hwhole, List.take_left, Dcb.deblock, hv, if_neg (by simp)]
      exact read_fixed_flatten (by omega) hlengths'
    refine ⟨_, [], if_pos hfull, hcopied.write_sync (by omega) hdeblock 0, ?_, rfl, ?_, _, rfl⟩
    · simp
    · exact lt_of_le_of_lt (Int.natCast_zero.le) (by omega)
  · refine ⟨_, _, if_neg hfull, hcopied, hlengths', hbytes', not_le.mp hfull, ?_⟩
    rw [← hflat]
    exact ⟨_, rfl⟩

theorem FixedFill.flush (h : FixedFill cs dcb done pending ioc) (hv : dcb.dcbrecv = false)
    (hpositive : 0 < dcb.dcblrecl.toInt) :
    ∃ ioc', ioc.write_flush = some ioc' ∧ Written cs dcb done [] ioc' := by
  obtain ⟨hwritten, hlengths, hbytes, hbelow, after, hbuffer⟩ := h
  by_cases hempty : ioc.bytes_in_buffer = 0
  · have hnone : pending = [] := by
      rw [hbytes, length_flatten_of_lengths hlengths, Nat.mul_eq_zero] at hempty
      rcases hempty with hnil | hzero
      · exact List.length_eq_zero_iff.mp hnil
      · omega
    refine ⟨ioc, ?_, hnone ▸ hwritten⟩
    rw [write_flush, if_neg (by omega)]
  · have hdeblock : dcb.deblock (ioc.buffer.take ioc.bytes_in_buffer) = some pending := by
      rw [hbuffer, hbytes, List.take_left, Dcb.deblock, hv, if_neg (by simp)]
      exact read_fixed_flatten (by omega) hlengths
    refine ⟨_, ?_, hwritten.write_sync hbelow.le hdeblock 0⟩
    have hopen : ioc.dcbofopn = true ∧ 0 < ioc.bytes_in_buffer := ⟨hwritten.opened, by omega⟩
    rw [write_flush, if_pos hopen, hwritten.same_dcb, hv]
    rfl

/-! Records of variable length. -/

/-- The descriptor word of a block, whatever its length is yet, and the pending records. -/
def Begun (pending : List Bytes) (ioc : IoCtrl) : Prop :=
  ∃ high low after, ioc.buffer = [high, low, 0, 0] ++ pending.flatMap described ++ after ∧
    ioc.bytes_in_buffer = ([high, low, 0, 0] ++ pending.flatMap described).length

structure VariableFill (cs : Charset) (dcb : Dcb) (done pending : List Bytes) (ioc : IoCtrl) :
    Prop extends Written cs dcb done pending ioc where
  unblocked : dcb.dcbrecbr = false → pending = []
  begun : ioc.bytes_in_buffer = 0 ∧ pending = [] ∨ Begun pending ioc

theorem Begun.bytes_le (h : Begun pending ioc) : ioc.bytes_in_buffer ≤ ioc.buffer.length := by
  obtain ⟨high, low, after, hbuffer, hbytes⟩ := h
  rw [hbuffer, hbytes]
  exact (List.sublist_append_left _ after).length_le

theorem Written.store_same (h : Written cs dcb done pending ioc) {buffer : Bytes}
    (hsize : buffer.length = ioc.buffer.length) :
    Written cs dcb done pending { ioc with buffer := buffer } :=
  ⟨h.same_dcb, h.opened, hsize ▸ h.size, h.free, h.lines, h.bounded, h.deblocked⟩

theorem init_bdw_eq {w x y z : UInt8} {after : Bytes}
    (hbuffer : ioc.buffer = [w, x] ++ [y, z] ++ after) :
    ioc.init_bdw = some (
      if ioc.bytes_in_buffer = 0 then
        { ioc with
          buffer := [w, x] ++ [0, 0] ++ after
          free_location := ioc.free_location + sizeof_descriptor
          bytes_in_buffer := sizeof_descriptor }
      else { ioc with buffer := [w, x] ++ [0, 0] ++ after }) := by
  have hstore : ioc.store 2 [0, 0] = some { ioc with buffer := [w, x] ++ [0, 0] ++ after } :=
    store_eq hbuffer rfl rfl
  simp only [init_bdw, hstore, Option.bind_eq_bind, Option.bind_some]
  split_ifs <;> rfl

theorem exists_word {block : Bytes} (h : 4 ≤ block.length) :
    ∃ w x y z after, block = [w, x] ++ [y, z] ++ after := by
  match block, h with
  | w :: x :: y :: z :: after, _ => exact ⟨w, x, y, z, after, rfl⟩

/-- A block is begun with its descriptor word. -/
theorem VariableFill.begin (h : VariableFill cs dcb done pending ioc)
    (hsize : 4 ≤ dcb.dcbblksi.toInt) :
    ∃ ioc', ioc.init_bdw = some ioc' ∧ Written cs dcb done pending ioc' ∧ Begun pending ioc' := by
  have hwritten := h.toWritten
  have hroom := hwritten.size
  rcases h.begun with ⟨hempty, rfl⟩ | ⟨high, low, after, hbuffer, hbytes⟩
  · obtain ⟨w, x, y, z, after, hbuffer⟩ : ∃ w x y z after, ioc.buffer = [w, x] ++ [y, z] ++ after :=
      exists_word (by omega)
    have hlength : ([w, x] ++ [0, 0] ++ after).length = ioc.buffer.length := by
      rw [hbuffer]
      rfl
    refine ⟨_, (init_bdw_eq hbuffer).trans (congrArg some (if_pos hempty)), ?_, w, x, after,
      rfl, rfl⟩
    have hsame := hwritten.store_same hlength
    have hfree : ioc.free_location + sizeof_descriptor = sizeof_descriptor := by
      rw [hwritten.free, hempty, Nat.zero_add]
    exact ⟨hsame.same_dcb, hsame.opened, hsame.size, hfree, hsame.lines, hsame.bounded,
      hsame.deblocked⟩
  · have hword : ioc.buffer = [high, low] ++ [0, 0] ++ (pending.flatMap described ++ after) := by
      rw [hbuffer]
      simp
    have hnonempty : ioc.bytes_in_buffer ≠ 0 := by
      rw [hbytes]
      simp
    refine ⟨_, (init_bdw_eq hword).trans (congrArg some (if_neg hnonempty)), ?_, high, low,
      after, ?_, hbytes⟩
    · exact hwritten.store_same (hword ▸ rfl)
    · simp

/-- The descriptor word of the block, once its length is put into it. -/
theorem Begun.describe (h : Begun pending ioc) (hwritten : Written cs dcb done pending ioc)
    (hv : dcb.dcbrecv = true) :
    ∃ after, ioc.store 0 (halfword ioc.bytes_in_buffer) =
        some { ioc with buffer := described (pending.flatMap described) ++ after } ∧
      (described (pending.flatMap described) ++ after).length = ioc.buffer.length ∧
      dcb.deblock ((described (pending.flatMap described) ++ after).take ioc.bytes_in_buffer) =
        some pending := by
  have hle := h.bytes_le
  have hshort := dcb.dcbblksi.toInt_lt
  have hsize := hwritten.size
  obtain ⟨high, low, after, hbuffer, hbytes⟩ := h
  have hflat : ioc.bytes_in_buffer = (pending.flatMap described).length + 4 := by
    rw [hbytes, List.length_append]
    exact Nat.add_comm _ _
  have hplain : ioc.buffer =
      [] ++ [high, low] ++ ([0, 0] ++ pending.flatMap described ++ after) := by
    rw [hbuffer]
    simp
  have hlen : ioc.store 0 (halfword ioc.bytes_in_buffer) = some { ioc with
      buffer := [] ++ halfword ioc.bytes_in_buffer ++
        ([0, 0] ++ pending.flatMap described ++ after) } := store_eq hplain rfl rfl
  have himage : [] ++ halfword ioc.bytes_in_buffer ++
      ([0, 0] ++ pending.flatMap described ++ after) =
      described (pending.flatMap described) ++ after := by
    rw [described, hflat]
    simp
  rw [himage] at hlen
  refine ⟨after, hlen, ?_, ?_⟩
  · rw [hbuffer, List.length_append, length_described]
    simp
    omega
  · rw [hflat, ← length_described, List.take_left, Dcb.deblock, hv, if_pos rfl]
    exact read_described_described (by omega)

/-- What is pending makes a block with its descriptor word. -/
theorem Begun.write (h : Begun pending ioc) (hwritten : Written cs dcb done pending ioc)
    (hv : dcb.dcbrecv = true) :
    ∃ ioc', ioc.write_variable_record = some ioc' ∧ Written cs dcb done [] ioc' ∧
      Begun [] ioc' ∧ ioc'.bytes_in_buffer = 4 := by
  have hle := h.bytes_le
  have hsize := hwritten.size
  obtain ⟨after, hlen, hlength, hdeblock⟩ := h.describe hwritten hv
  have hblock := (hwritten.store_same hlength).write_sync (by omega) hdeblock sizeof_descriptor
  let full : IoCtrl := { ioc with buffer := described (pending.flatMap described) ++ after }
  let fresh : IoCtrl := { full.write_sync ioc.bytes_in_buffer with
    free_location := sizeof_descriptor, bytes_in_buffer := sizeof_descriptor }
  have hfresh : fresh.buffer = [] ++ halfword ((pending.flatMap described).length + 4) ++
      ([0, 0] ++ pending.flatMap described ++ after) := by
    simp [fresh, full, write_sync, described]
  let last : IoCtrl := { fresh with
    buffer := [] ++ halfword 0 ++ ([0, 0] ++ pending.flatMap described ++ after) }
  have hreset : fresh.store 0 (halfword 0) = some last := store_eq hfresh rfl rfl
  have hsame : last.buffer.length = fresh.buffer.length := hfresh ▸ rfl
  have hbegun : Begun [] last := ⟨0, 0, pending.flatMap described ++ after, rfl, rfl⟩
  refine ⟨last, ?_, hblock.store_same hsame, hbegun, rfl⟩
  rw [write_variable_record, hlen]
  exact hreset

/-- A record with its descriptor word goes behind what is pending. -/
theorem Begun.copy (h : Begun pending ioc) (hwritten : Written cs dcb done pending ioc)
    {length : ℤ} (hlength : 0 ≤ length)
    (hdata : length ≤ data.length) (hrecord : dcb.record cs data = data.take length.toNat)
    (hroom : ioc.bytes_in_buffer + (length + 4) ≤ dcb.dcbblksi.toInt) :
    ∃ ioc', ioc.copy_variable_record data length = some ioc' ∧
      Written cs dcb (done ++ [data]) (pending ++ [dcb.record cs data]) ioc' ∧
      Begun (pending ++ [dcb.record cs data]) ioc' := by
  have hsize := hwritten.size
  have hfree := hwritten.free
  obtain ⟨high, low, after, hbuffer, hbytes⟩ := h
  generalize hbefore : [high, low, 0, 0] ++ pending.flatMap described = before at hbuffer hbytes
  have hrecorded : (dcb.record cs data).length = length.toNat := by
    rw [hrecord, List.length_take]
    omega
  have hafter : length.toNat + 4 ≤ after.length := by
    rw [hbuffer, List.length_append] at hsize
    omega
  obtain ⟨w, x, y, z, rest, hword⟩ : ∃ w x y z rest, after = [w, x] ++ [y, z] ++ rest :=
    exists_word (by omega)
  have hrest : length.toNat ≤ rest.length := by
    rw [hword] at hafter
    simpa using hafter
  obtain ⟨old, behind, hold, rfl⟩ : ∃ old behind, old.length = length.toNat ∧
      rest = old ++ behind :=
    ⟨_, _, List.length_take_of_le hrest, (List.take_append_drop length.toNat rest).symm⟩
  let counted : IoCtrl := { ioc with lines_written := ioc.lines_written + 1 }
  have hcounted : counted.buffer = (before ++ [w, x]) ++ [y, z] ++ (old ++ behind) := by
    simp [counted, hbuffer, hword]
  have hunused : counted.store (ioc.free_location + 2) [0, 0] = some { counted with
      buffer := (before ++ [w, x]) ++ [0, 0] ++ (old ++ behind) } := by
    refine store_eq hcounted ?_ rfl
    rw [hfree, hbytes, List.length_append]
    rfl
  have hcopied : IoCtrl.memcpy { counted with
      buffer := (before ++ [w, x]) ++ [0, 0] ++ (old ++ behind) }
        (ioc.free_location + sizeof_descriptor) data length = some { counted with
          buffer := (before ++ [w, x, 0, 0]) ++ dcb.record cs data ++ behind } := by
    rw [IoCtrl.memcpy, if_neg (not_lt.mpr hlength), ← hrecord]
    refine store_eq ?_ ?_ (hold.trans hrecorded.symm)
    · simp
    · rw [hfree, hbytes, List.length_append]
      rfl
  have hlen : (length + sizeof_descriptor).toNat = (dcb.record cs data).length + 4 := by
    rw [hrecorded, sizeof_descriptor]
    omega
  have hdescribed : IoCtrl.store { counted with
      buffer := (before ++ [w, x, 0, 0]) ++ dcb.record cs data ++ behind }
        ioc.free_location (halfword ((dcb.record cs data).length + 4)) = some { counted with
          buffer := before ++ halfword ((dcb.record cs data).length + 4) ++
            ([0, 0] ++ dcb.record cs data ++ behind) } := by
    have hwords : before ++ [w, x, 0, 0] ++ dcb.record cs data ++ behind =
        before ++ [w, x] ++ ([0, 0] ++ dcb.record cs data ++ behind) := by simp
    exact store_eq hwords (hfree.trans hbytes) rfl
  have hbehind : before ++ halfword ((dcb.record cs data).length + 4) ++
      ([0, 0] ++ dcb.record cs data ++ behind) =
        before ++ described (dcb.record cs data) ++ behind := by
    rw [described]
    simp
  rw [hbehind, ← hlen] at hdescribed
  have hlengths : (before ++ described (dcb.record cs data) ++ behind).length =
      ioc.buffer.length := by
    rw [hbuffer, hword]
    simp only [List.length_append, length_described, hold, hrecorded]
    simp
    omega
  refine ⟨_, ?_, hwritten.snoc hlengths data (length + sizeof_descriptor).toNat,
    high, low, behind, ?_, ?_⟩
  · simp only [copy_variable_record, Option.bind_eq_bind]
    rw [hunused, Option.bind_some, hcopied, Option.bind_some, hdescribed]
    rfl
  · simp [← hbefore]
  · have hone : [dcb.record cs data].flatMap described = described (dcb.record cs data) := by simp
    dsimp only
    rw [hbytes, hlen, ← hbefore, List.flatMap_append, hone]
    simp only [List.length_append, length_described]
    omega

theorem has_room_iff (hwritten : Written cs dcb done pending ioc)
    (hle : ioc.bytes_in_buffer ≤ ioc.buffer.length) {length : ℤ} (hlength : 0 ≤ length)
    (hshort : length < 32768) :
    ioc.has_room length = true ↔ ioc.bytes_in_buffer + (length + 4) < dcb.dcbblksi.toInt := by
  have hblock := dcb.dcbblksi.toInt_lt
  have hsize := hwritten.size
  rw [has_room, hwritten.same_dcb, to_unsigned, to_unsigned, sizeof_descriptor, decide_eq_true_iff]
  omega

/-- A record for which there is room goes into the buffer or into a block. -/
theorem VariableFill.write (h : VariableFill cs dcb done pending ioc) (hv : dcb.dcbrecv = true)
    (hsize : dcb.dcblrecl.toInt + 4 ≤ dcb.dcbblksi.toInt) (hroom : dcb.has_room_for data) :
    ∃ ioc' pending', ioc.write_output_bpam cs data = some ioc' ∧
      VariableFill cs dcb (done ++ [data]) pending' ioc' := by
  rw [Dcb.has_room_for, hv, if_pos rfl, sizeof_descriptor] at hroom
  obtain ⟨hlrecl, hwhole⟩ := hroom
  have hshort := dcb.dcblrecl.toInt_lt
  obtain ⟨begun, hinit, hwritten, hbegun⟩ := h.begin (by omega)
  obtain ⟨length, hlength⟩ : ∃ length, length =
      if (data.length : ℤ) > dcb.dcblrecl.toInt - sizeof_descriptor then
        dcb.dcblrecl.toInt - sizeof_descriptor else data.length := ⟨_, rfl⟩
  obtain ⟨hnonneg, htake⟩ := take_cut data (by rw [sizeof_descriptor]; omega) hlength
  have hle : length ≤ data.length ∧ length + 4 ≤ dcb.dcblrecl.toInt := by
    rw [sizeof_descriptor] at hlength
    split_ifs at hlength <;> omega
  have hrecord : dcb.record cs data = data.take length.toNat := by
    rw [Dcb.record, hv, if_pos rfl, htake]
  simp only [write_output_bpam, h.same_dcb, hv, if_true, ← hlength, handle_variable_record,
    Option.bind_eq_bind]
  rw [hinit, Option.bind_some, hwritten.same_dcb]
  by_cases hblocked : dcb.dcbrecbr = true
  · rw [hblocked, Bool.not_true, if_neg (by simp)]
    have hiff := has_room_iff hwritten hbegun.bytes_le hnonneg (by omega)
    by_cases hfits : begun.has_room length = true
    · obtain ⟨copied, hcopy, hwritten', hbegun'⟩ :=
        hbegun.copy hwritten hnonneg hle.1 hrecord (hiff.mp hfits).le
      refine ⟨copied, _, ?_, hwritten', fun hno => ?_, .inr hbegun'⟩
      · rw [if_pos hfits, Option.bind_some, if_pos hfits, hcopy]
      · rw [hblocked] at hno
        cases hno
    · obtain ⟨flushed, hflush, hwritten', hbegun', hfour⟩ := hbegun.write hwritten hv
      have hiff' := has_room_iff hwritten' hbegun'.bytes_le hnonneg (by omega)
      have hfits' : flushed.has_room length = true := by
        rw [hiff', hfour]
        simp only [hblocked, true_and] at hwhole
        rw [sizeof_descriptor] at hlength
        split_ifs at hlength <;> omega
      obtain ⟨copied, hcopy, hwritten'', hbegun''⟩ :=
        hbegun'.copy hwritten' hnonneg hle.1 hrecord (hiff'.mp hfits').le
      refine ⟨copied, _, ?_, hwritten'', fun hno => ?_, .inr hbegun''⟩
      · rw [if_neg hfits, hflush, Option.bind_some, if_pos hfits', hcopy]
      · rw [hblocked] at hno
        cases hno
  · rw [Bool.not_eq_true] at hblocked
    obtain rfl := h.unblocked hblocked
    have hfour : begun.bytes_in_buffer = 4 := by
      obtain ⟨high, low, after, -, hbytes⟩ := hbegun
      exact hbytes
    obtain ⟨copied, hcopy, hwritten', hbegun'⟩ :=
      hbegun.copy hwritten hnonneg hle.1 hrecord (by omega)
    obtain ⟨flushed, hflush, hwritten'', hbegun'', -⟩ := hbegun'.write hwritten' hv
    refine ⟨flushed, [], ?_, hwritten'', fun _ => rfl, .inr hbegun''⟩
    rw [hblocked, Bool.not_false, if_pos rfl, hcopy, Option.bind_some, hflush]

theorem VariableFill.flush (h : VariableFill cs dcb done pending ioc) (hv : dcb.dcbrecv = true) :
    ∃ ioc', ioc.write_flush = some ioc' ∧ Written cs dcb done [] ioc' := by
  have hwritten := h.toWritten
  rcases h.begun with ⟨hempty, rfl⟩ | hbegun
  · refine ⟨ioc, ?_, hwritten⟩
    rw [write_flush, if_neg (by omega)]
  · by_cases hword : ioc.bytes_in_buffer ≤ sizeof_descriptor
    · have hnone : pending = [] := by
        obtain ⟨high, low, after, -, hbytes⟩ := hbegun
        rw [hbytes, List.length_append] at hword
        have hflat : (pending.flatMap described).length = 0 := by
          simp only [List.length_cons, List.length_nil, sizeof_descriptor] at hword
          omega
        have hle := length_le_flatMap fun r (_ : r ∈ pending) => described_ne_nil r
        exact List.length_eq_zero_iff.mp (by omega)
      refine ⟨ioc, ?_, hnone ▸ hwritten⟩
      rw [write_flush, hwritten.same_dcb, hv]
      by_cases hopen : ioc.dcbofopn = true ∧ 0 < ioc.bytes_in_buffer
      · rw [if_pos hopen, if_pos ⟨rfl, hword⟩]
      · rw [if_neg hopen]
    · have hle := hbegun.bytes_le
      have hsize := hwritten.size
      obtain ⟨after, hlen, hlength, hdeblock⟩ := hbegun.describe hwritten hv
      refine ⟨_, ?_, (hwritten.store_same hlength).write_sync (by omega) hdeblock 0⟩
      have hopen : ioc.dcbofopn = true ∧ 0 < ioc.bytes_in_buffer := ⟨hwritten.opened, by omega⟩
      have hrecv : ioc.dcb.dcbrecv = true := by rw [hwritten.same_dcb, hv]
      rw [write_flush, if_pos hopen, hrecv, if_neg fun h => hword h.2, if_pos rfl, hlen]
      rfl

/-! Whole runs. -/

/-- What holds between two records. -/
def Fill (cs : Charset) (dcb : Dcb) (done : List Bytes) (ioc : IoCtrl) : Prop :=
  ∃ pending, if dcb.dcbrecv then VariableFill cs dcb done pending ioc
    else FixedFill cs dcb done pending ioc

/-- The format is fixed or variable, and its lengths are accepted. -/
structure Accepted (dcb : Dcb) : Prop where
  valid : validate_dcb_attributes dcb = some (.ok ())
  defined : (dcb.dcbrecf && dcb.dcbrecv) = false

theorem Accepted.cases (h : Accepted dcb) :
    dcb.dcbrecf = true ∧ dcb.dcbrecv = false ∨ dcb.dcbrecf = false ∧ dcb.dcbrecv = true := by
  have hdefined := h.defined
  have hvalid := h.valid
  rcases hf : dcb.dcbrecf with _ | _
  · rcases hv : dcb.dcbrecv with _ | _
    · simp [validate_dcb_attributes, hf, hv] at hvalid
    · exact .inr ⟨rfl, rfl⟩
  · rcases hv : dcb.dcbrecv with _ | _
    · exact .inl ⟨rfl, rfl⟩
    · rw [hf, hv] at hdefined
      cases hdefined

theorem dvd_of_tmod {block lrecl : ℤ} (hlrecl : 0 < lrecl) (hblock : 0 ≤ block)
    (h : block.tmod lrecl = 0) : lrecl.toNat ∣ block.toNat := by
  obtain ⟨k, hk⟩ := Int.dvd_of_tmod_eq_zero h
  refine ⟨k.toNat, ?_⟩
  have hk0 : 0 ≤ k := by
    by_contra hneg
    have := mul_neg_of_pos_of_neg hlrecl (not_le.mp hneg)
    omega
  rw [hk, Int.toNat_mul hlrecl.le hk0]

theorem Fill.write (h : Fill cs dcb done ioc) (hdcb : Accepted dcb)
    (hroom : dcb.has_room_for data) :
    ∃ ioc', ioc.write_output_bpam cs data = some ioc' ∧ Fill cs dcb (done ++ [data]) ioc' := by
  obtain ⟨pending, h⟩ := h
  rcases hdcb.cases with ⟨hf, hv⟩ | ⟨hf, hv⟩
  · rw [hv, if_neg (by simp)] at h
    have hpositive : 0 < dcb.dcblrecl.toInt := by
      rwa [Dcb.has_room_for, hv, if_neg (by simp)] at hroom
    obtain ⟨hblock, -, htmod⟩ := validate_fixed hdcb.valid hf
    have hdvd := dvd_of_tmod hpositive (by omega) htmod
    obtain ⟨ioc', pending', hwrite, hfill⟩ := h.write hv hpositive hdvd data
    refine ⟨ioc', hwrite, pending', ?_⟩
    rwa [hv, if_neg (by simp)]
  · rw [hv, if_pos rfl] at h
    have hlrecl := hroom
    rw [Dcb.has_room_for, hv, if_pos rfl, sizeof_descriptor] at hlrecl
    have hsize := validate_variable hdcb.valid hf (by omega)
    obtain ⟨ioc', pending', hwrite, hfill⟩ := h.write hv hsize hroom
    refine ⟨ioc', hwrite, pending', ?_⟩
    rwa [hv, if_pos rfl]

theorem Fill.start (hdcb : Accepted dcb) {storage : Bytes}
    (hstorage : (storage.length : ℤ) = dcb.dcbblksi.toInt) :
    Fill cs dcb [] (open_output_bpam dcb storage) := by
  have hwritten : Written cs dcb [] [] (open_output_bpam dcb storage) :=
    ⟨rfl, rfl, hstorage, rfl, rfl, by simp [open_output_bpam], [], rfl, rfl⟩
  refine ⟨[], ?_⟩
  rcases hdcb.cases with ⟨hf, hv⟩ | ⟨hf, hv⟩
  · have hblock := (validate_fixed hdcb.valid hf).1
    rw [hv, if_neg (by simp)]
    exact ⟨hwritten, by simp, rfl, lt_of_lt_of_le Int.zero_lt_one hblock, storage, rfl⟩
  · rw [hv, if_pos rfl]
    exact ⟨hwritten, fun _ => rfl, .inl ⟨rfl, rfl⟩⟩

theorem Written.no_record_lost (h : Written cs dcb done [] ioc) : NoRecordLost cs dcb done ioc := by
  obtain ⟨blocks, hread, hdone⟩ := h.deblocked
  refine ⟨?_, h.bounded, h.lines⟩
  rw [hread, ← hdone, List.append_nil]
  rfl

/-- The first flush of the close. What is in the buffer needs no room. -/
theorem Fill.flush (h : Fill cs dcb done ioc) (hdcb : Accepted dcb)
    (hroom : ∀ data ∈ done, dcb.has_room_for data) :
    ∃ ioc', ioc.write_flush = some ioc' ∧ NoRecordLost cs dcb done ioc' := by
  obtain ⟨pending, h⟩ := h
  rcases hdcb.cases with ⟨hf, hv⟩ | ⟨hf, hv⟩
  · rw [hv, if_neg (by simp)] at h
    rcases done with _ | ⟨data, done⟩
    · obtain ⟨blocks, -, hdone⟩ := h.deblocked
      obtain ⟨-, rfl⟩ := List.append_eq_nil_iff.mp hdone
      have hempty : ioc.bytes_in_buffer = 0 := h.bytes
      refine ⟨ioc, ?_, h.toWritten.no_record_lost⟩
      rw [write_flush, if_neg (by omega)]
    · have hpositive := hroom data List.mem_cons_self
      rw [Dcb.has_room_for, hv, if_neg (by simp)] at hpositive
      obtain ⟨ioc', hflush, hwritten⟩ := h.flush hv hpositive
      exact ⟨ioc', hflush, hwritten.no_record_lost⟩
  · rw [hv, if_pos rfl] at h
    obtain ⟨ioc', hflush, hwritten⟩ := h.flush hv
    exact ⟨ioc', hflush, hwritten.no_record_lost⟩

theorem Fill.write_records (h : Fill cs dcb done ioc) (hdcb : Accepted dcb) {records : List Bytes}
    (hdone : ∀ data ∈ done, dcb.has_room_for data)
    (hroom : ∀ data ∈ records, dcb.has_room_for data) :
    ∃ ioc', ioc.write_records cs records = some ioc' ∧
      NoRecordLost cs dcb (done ++ records) ioc' := by
  induction records generalizing done ioc with
  | nil =>
    rw [List.append_nil]
    exact h.flush hdcb hdone
  | cons data records ih =>
    have hdata := hroom data List.mem_cons_self
    obtain ⟨ioc', hwrite, hfill⟩ := h.write hdcb hdata
    have hdone' : ∀ r ∈ done ++ [data], dcb.has_room_for r := by
      intro r hr
      rcases List.mem_append.mp hr with hr | hr
      · exact hdone r hr
      · exact List.mem_singleton.mp hr ▸ hdata
    obtain ⟨last, hlast, hkept⟩ :=
      ih hfill hdone' fun r hr => hroom r (List.mem_cons_of_mem data hr)
    refine ⟨last, ?_, ?_⟩
    · simp only [IoCtrl.write_records, hwrite, Option.bind_eq_bind, Option.bind_some, hlast]
    · rwa [List.append_assoc] at hkept

/-! The lines that are counted. -/

section

variable {ioc' : IoCtrl}

theorem store_lines {place : ℕ} (h : ioc.store place data = some ioc') :
    ioc'.lines_written = ioc.lines_written := by
  obtain ⟨buffer, -, rfl⟩ := Option.map_eq_some_iff.mp h
  rfl

theorem memcpy_lines {place : ℕ} {length : ℤ} (h : ioc.memcpy place data length = some ioc') :
    ioc'.lines_written = ioc.lines_written := by
  unfold IoCtrl.memcpy at h
  split at h
  · cases h
  · exact store_lines h

theorem memset_lines {place : ℕ} {c : UInt8} {length : ℤ}
    (h : ioc.memset place c length = some ioc') : ioc'.lines_written = ioc.lines_written := by
  unfold IoCtrl.memset at h
  split at h
  · cases h
  · exact store_lines h

theorem init_bdw_lines (h : ioc.init_bdw = some ioc') :
    ioc'.lines_written = ioc.lines_written := by
  simp only [init_bdw, Option.bind_eq_bind, Option.bind_eq_some_iff] at h
  obtain ⟨stored, hstore, h⟩ := h
  have hstored := store_lines hstore
  split at h
  · cases h
    exact hstored
  · cases h
    exact hstored

theorem write_variable_record_lines (h : ioc.write_variable_record = some ioc') :
    ioc'.lines_written = ioc.lines_written := by
  simp only [write_variable_record, Option.bind_eq_bind, Option.bind_eq_some_iff] at h
  obtain ⟨stored, hstore, h⟩ := h
  have hstored := store_lines hstore
  exact (store_lines h).trans hstored

theorem copy_variable_record_lines {length : ℤ}
    (h : ioc.copy_variable_record data length = some ioc') :
    ioc'.lines_written = ioc.lines_written + 1 := by
  simp only [copy_variable_record, Option.bind_eq_bind, Option.bind_eq_some_iff] at h
  obtain ⟨unused, hunused, copied, hcopied, stored, hstored, h⟩ := h
  cases h
  exact (store_lines hstored).trans ((memcpy_lines hcopied).trans (store_lines hunused))

theorem copy_if_room_lines {length : ℤ}
    (h : (if ioc.has_room length then ioc.copy_variable_record data length else some ioc) =
      some ioc') : ioc'.lines_written ≤ ioc.lines_written + 1 := by
  split at h
  · exact (copy_variable_record_lines h).le
  · cases h
    exact Nat.le_succ _

theorem handle_variable_record_lines {length : ℤ}
    (h : ioc.handle_variable_record data length = some ioc') :
    ioc'.lines_written ≤ ioc.lines_written + 1 := by
  simp only [handle_variable_record, Option.bind_eq_bind, Option.bind_eq_some_iff] at h
  obtain ⟨begun, hbegun, h⟩ := h
  have hinit := init_bdw_lines hbegun
  split at h
  · obtain ⟨copied, hcopied, h⟩ := Option.bind_eq_some_iff.mp h
    have hcopy := copy_variable_record_lines hcopied
    have hwrite := write_variable_record_lines h
    omega
  · split at h
    · exact hinit ▸ copy_if_room_lines h
    · obtain ⟨flushed, hflushed, h⟩ := Option.bind_eq_some_iff.mp h
      have hwrite := write_variable_record_lines hflushed
      have hcopy := copy_if_room_lines h
      omega

theorem handle_fixed_record_lines {length : ℤ}
    (h : ioc.handle_fixed_record cs data length = some ioc') :
    ioc'.lines_written ≤ ioc.lines_written + 1 := by
  simp only [handle_fixed_record, Option.bind_eq_bind, Option.bind_eq_some_iff] at h
  obtain ⟨blank, hblank, copied, hcopied, h⟩ := h
  have hset := memset_lines hblank
  have hcopy := memcpy_lines hcopied
  split at h
  · cases h
    simp only [write_sync]
    omega
  · cases h
    dsimp only
    omega

theorem write_output_bpam_lines (h : ioc.write_output_bpam cs data = some ioc') :
    ioc'.lines_written ≤ ioc.lines_written + 1 := by
  unfold write_output_bpam at h
  dsimp only at h
  split at h
  · exact handle_variable_record_lines h
  · exact handle_fixed_record_lines h

theorem write_flush_lines (h : ioc.write_flush = some ioc') :
    ioc'.lines_written = ioc.lines_written := by
  unfold write_flush at h
  split at h
  · split at h
    · cases h
      rfl
    · simp only [Option.bind_eq_bind] at h
      split at h
      · obtain ⟨stored, hstored, h⟩ := Option.bind_eq_some_iff.mp h
        have hlines := store_lines hstored
        cases h
        exact hlines
      · cases h
        rfl
  · cases h
    rfl

theorem write_records_lines {records : List Bytes} (h : ioc.write_records cs records = some ioc') :
    ioc'.lines_written ≤ ioc.lines_written + records.length := by
  induction records generalizing ioc with
  | nil => exact (write_flush_lines h).le
  | cons data records ih =>
    simp only [write_records, Option.bind_eq_bind, Option.bind_eq_some_iff] at h
    obtain ⟨written, hwritten, h⟩ := h
    have hfirst := write_output_bpam_lines hwritten
    have hrest := ih h
    rw [List.length_cons]
    omega

end

/-! A record for which there is no room. -/

theorem memcpy_negative {place : ℕ} {length : ℤ} (h : length < 0) :
    ioc.memcpy place data length = none := if_pos h

theorem copy_negative {length : ℤ} (h : length < 0) :
    ioc.copy_variable_record data length = none := by
  simp only [copy_variable_record, memcpy_negative h, Option.bind_eq_bind, Option.bind_none,
    Option.bind_fun_none]

/-- Lost: there is no state after it, or its line is not counted. -/
def Lost (ioc : IoCtrl) (result : Option IoCtrl) : Prop :=
  ∀ ioc', result = some ioc' → ioc'.lines_written = ioc.lines_written

theorem handle_variable_negative {length : ℤ} (h : length < 0) :
    Lost ioc (ioc.handle_variable_record data length) := by
  intro ioc' hresult
  simp only [handle_variable_record, copy_negative h, Option.bind_eq_bind, Option.bind_none,
    Option.bind_eq_some_iff] at hresult
  obtain ⟨begun, hbegun, hresult⟩ := hresult
  have hinit := init_bdw_lines hbegun
  split at hresult
  · cases hresult
  split at hresult
  next hroom =>
    rw [Option.bind_some, if_pos hroom] at hresult
    cases hresult
  next =>
    obtain ⟨flushed, hflushed, hresult⟩ := Option.bind_eq_some_iff.mp hresult
    have hwrite := write_variable_record_lines hflushed
    split at hresult
    · cases hresult
    · cases hresult
      exact hwrite.trans hinit

/-- A record is dropped that takes a block of its own, and all of it. -/
theorem handle_variable_dropped (h : VariableFill cs dcb done pending ioc)
    (hv : dcb.dcbrecv = true) (hblocked : dcb.dcbrecbr = true)
    (hlrecl : 4 ≤ dcb.dcblrecl.toInt)
    (hwhole : dcb.dcbblksi.toInt = dcb.dcblrecl.toInt + 4) :
    Lost ioc (ioc.handle_variable_record data (dcb.dcblrecl.toInt - 4)) := by
  intro ioc' hresult
  have hshort := dcb.dcblrecl.toInt_lt
  obtain ⟨begun, hinit, hwritten, hbegun⟩ := h.begin (by omega)
  obtain ⟨flushed, hflush, hwritten', hbegun', -⟩ := hbegun.write hwritten hv
  have hbytes : 4 ≤ begun.bytes_in_buffer := by
    obtain ⟨high, low, after, -, hbytes⟩ := hbegun
    rw [hbytes, List.length_append]
    exact Nat.le_add_right 4 _
  have hfour : 4 ≤ flushed.bytes_in_buffer := by
    obtain ⟨high, low, after, -, hbytes⟩ := hbegun'
    rw [hbytes, List.length_append]
    exact Nat.le_add_right 4 _
  have hfull : ¬ begun.has_room (dcb.dcblrecl.toInt - 4) = true := by
    rw [has_room_iff hwritten hbegun.bytes_le (by omega) (by omega)]
    omega
  have hfull' : ¬ flushed.has_room (dcb.dcblrecl.toInt - 4) = true := by
    rw [has_room_iff hwritten' hbegun'.bytes_le (by omega) (by omega)]
    omega
  simp only [handle_variable_record, hinit, hwritten.same_dcb, hblocked, Bool.not_true,
    Bool.false_eq_true, if_false, if_neg hfull, hflush, if_neg hfull', Option.bind_eq_bind,
    Option.bind_some] at hresult
  cases hresult
  exact (write_variable_record_lines hflush).trans (init_bdw_lines hinit)

theorem handle_fixed_negative (hlrecl : ioc.dcb.dcblrecl.toInt < 0) (length : ℤ) :
    Lost ioc (ioc.handle_fixed_record cs data length) := by
  intro ioc' hresult
  have hset : ioc.memset ioc.free_location (cs.code ' ') ioc.dcb.dcblrecl.toInt = none :=
    if_pos hlrecl
  simp only [handle_fixed_record, hset, Option.bind_eq_bind, Option.bind_none] at hresult
  cases hresult

theorem Fill.lost (h : Fill cs dcb done ioc) (hdcb : Accepted dcb)
    (hroom : ¬ dcb.has_room_for data) : Lost ioc (ioc.write_output_bpam cs data) := by
  obtain ⟨pending, h⟩ := h
  rcases hdcb.cases with ⟨hf, hv⟩ | ⟨hf, hv⟩
  · rw [hv, if_neg (by simp)] at h
    rw [Dcb.has_room_for, hv, if_neg (by simp)] at hroom
    have hzero := (validate_fixed hdcb.valid hf).2.1
    have hlrecl : ioc.dcb.dcblrecl.toInt < 0 := by
      rw [h.same_dcb]
      omega
    have hrecv : ioc.dcb.dcbrecv = false := by rw [h.same_dcb, hv]
    rw [write_output_bpam, hrecv, if_neg (by simp)]
    exact handle_fixed_negative hlrecl _
  · rw [hv, if_pos rfl] at h
    rw [Dcb.has_room_for, hv, if_pos rfl, sizeof_descriptor] at hroom
    simp only [write_output_bpam, h.same_dcb, hv, if_true, sizeof_descriptor]
    by_cases hlrecl : 4 ≤ dcb.dcblrecl.toInt
    · have hnone := not_and.mp hroom hlrecl
      rw [not_not] at hnone
      obtain ⟨hblocked, hwhole, hlong⟩ := hnone
      have hcut : (if (data.length : ℤ) > dcb.dcblrecl.toInt - (4 : ℕ) then
          dcb.dcblrecl.toInt - (4 : ℕ) else data.length) = dcb.dcblrecl.toInt - 4 := by
        split_ifs <;> omega
      rw [hcut]
      exact handle_variable_dropped h hv hblocked hlrecl hwhole
    · refine handle_variable_negative ?_
      split_ifs <;> omega

/-- With one record for which there is no room, not all lines are counted. -/
theorem Fill.lines_lt (h : Fill cs dcb done ioc) (hdcb : Accepted dcb) {records : List Bytes}
    (hroom : ¬ ∀ data ∈ records, dcb.has_room_for data) {ioc' : IoCtrl}
    (hwrite : ioc.write_records cs records = some ioc') :
    ioc'.lines_written < ioc.lines_written + records.length := by
  induction records generalizing done ioc with
  | nil => exact absurd (fun data hdata => absurd hdata List.not_mem_nil) hroom
  | cons data records ih =>
    simp only [IoCtrl.write_records, Option.bind_eq_bind, Option.bind_eq_some_iff] at hwrite
    obtain ⟨written, hwritten, hrest⟩ := hwrite
    rw [List.length_cons]
    by_cases hdata : dcb.has_room_for data
    · obtain ⟨written', hwritten', hfill⟩ := h.write hdcb hdata
      obtain rfl : written = written' := Option.some.inj (hwritten.symm.trans hwritten')
      have hothers : ¬ ∀ r ∈ records, dcb.has_room_for r := by
        intro hall
        exact hroom (List.forall_mem_cons.mpr ⟨hdata, hall⟩)
      have hfirst := write_output_bpam_lines hwritten
      have hlast := ih hfill hothers hrest
      omega
    · have hfirst := h.lost hdcb hdata written hwritten
      have hlast := write_records_lines hrest
      omega

/-- No record is lost just when there is room for each. -/
theorem no_record_lost_iff (hdcb : Accepted dcb) {storage : Bytes}
    (hstorage : (storage.length : ℤ) = dcb.dcbblksi.toInt) (records : List Bytes) :
    (∃ ioc, (open_output_bpam dcb storage).write_records cs records = some ioc ∧
      NoRecordLost cs dcb records ioc) ↔ ∀ data ∈ records, dcb.has_room_for data := by
  have hstart : Fill cs dcb [] (open_output_bpam dcb storage) := Fill.start hdcb hstorage
  constructor
  · intro hkept
    by_contra hroom
    obtain ⟨ioc, hwrite, hkept⟩ := hkept
    have hlines := hkept.lines
    have hless := hstart.lines_lt hdcb hroom hwrite
    have hzero : (open_output_bpam dcb storage).lines_written = 0 := rfl
    omega
  · intro hroom
    exact hstart.write_records hdcb (fun _ hdata => absurd hdata List.not_mem_nil) hroom

/-- Blocked records of variable length, 12 at most with the descriptor word. -/
def variable_blocked (blksi : Int16) : Dcb where
  dcbrecf := false
  dcbrecv := true
  dcbrecbr := true
  dcblrecl := 12
  dcbblksi := blksi

theorem no_record_lost_iff_room :
    ∃ ioc, (open_output_bpam (variable_blocked 17) (List.replicate 17 0)).write_records ibm1047
        [[1, 2, 3], [1, 2, 3, 4, 5, 6, 7, 8, 9], []] = some ioc ∧
      NoRecordLost ibm1047 (variable_blocked 17)
        [[1, 2, 3], [1, 2, 3, 4, 5, 6, 7, 8, 9], []] ioc := by
  refine (no_record_lost_iff ⟨rfl, rfl⟩ rfl _).mpr fun data _ => ?_
  refine ⟨by decide, fun hwhole => ?_⟩
  exact absurd hwhole.2.1 (by decide)

/-- A record that fills the one block it could go into. -/
theorem record_dropped : ¬ ∃ ioc,
    (open_output_bpam (variable_blocked 16) (List.replicate 16 0)).write_records ibm1047
        [[1, 2, 3, 4, 5, 6, 7, 8]] = some ioc ∧
      NoRecordLost ibm1047 (variable_blocked 16) [[1, 2, 3, 4, 5, 6, 7, 8]] ioc := by
  rintro ⟨ioc, hwrite, hkept⟩
  have hnone : ((open_output_bpam (variable_blocked 16) (List.replicate 16 0)).write_records
      ibm1047 [[1, 2, 3, 4, 5, 6, 7, 8]]).map (fun ioc => ioc.lines_written) = some 0 := by
    decide +kernel
  rw [hwrite, Option.map_some, hkept.lines] at hnone
  cases hnone

end Zowex.zam
