import Zowex.Spec.Adler32
import Zowex.Spec.DataSets

/-! The sums are reduced often enough: within a block they stay far below 32 bits, and the reduction
loses nothing of the checksum. -/

namespace Zowex.zut

/-- The state after some data, where at most `spread` bytes have been added since it was reduced. -/
structure Carries (data : Bytes) (spread : ℕ) (state : Adler32State) : Prop where
  first : state.a.toNat % 65521 = Adler.first (data.map UInt8.toNat) % 65521
  second : state.b.toNat % 65521 = Adler.second (data.map UInt8.toNat) % 65521
  a_le : state.a.toNat ≤ 65520 + spread * 255
  b_le : state.b.toNat ≤ 65520 + spread * (65520 + spread * 255)

theorem carries_start : Carries [] 0 {} := ⟨rfl, rfl, by decide, by decide⟩

theorem Carries.a_toNat {data : Bytes} {spread : ℕ} {state : Adler32State}
    (h : Carries data spread state) (hspread : spread < block_size) (c : UInt8) :
    (state.a + c.toUInt32).toNat = state.a.toNat + c.toNat := by
  have ha := h.a_le
  have hc : c.toNat < 256 := c.toNat_lt
  rw [block_size] at hspread
  rw [UInt32.toNat_add, UInt8.toNat_toUInt32, Nat.mod_eq_of_lt]
  omega

theorem Carries.b_toNat {data : Bytes} {spread : ℕ} {state : Adler32State}
    (h : Carries data spread state) (hspread : spread < block_size) (c : UInt8) :
    (state.b + (state.a + c.toUInt32)).toNat = state.b.toNat + (state.a.toNat + c.toNat) := by
  have ha := h.a_le
  have hb := h.b_le
  have hc : c.toNat < 256 := c.toNat_lt
  rw [block_size] at hspread
  have hblock : spread * (65520 + spread * 255) ≤ 15 * (65520 + 15 * 255) := by gcongr <;> omega
  rw [UInt32.toNat_add, h.a_toNat hspread c, Nat.mod_eq_of_lt]
  omega

theorem Carries.add {data : Bytes} {spread : ℕ} {state : Adler32State}
    (h : Carries data spread state) (hspread : spread < block_size) (c : UInt8) :
    Carries (data ++ [c]) (spread + 1) (state.add c) := by
  have ha := h.a_le
  have hb := h.b_le
  have hfirst := h.first
  have hsecond := h.second
  have hc : c.toNat < 256 := c.toNat_lt
  have hdata : (data ++ [c]).map UInt8.toNat = data.map UInt8.toNat ++ [c.toNat] := by
    rw [List.map_append, List.map_singleton]
  refine ⟨?_, ?_, ?_, ?_⟩
  · rw [Adler32State.add, h.a_toNat hspread, hdata, Adler.first_snoc]
    omega
  · rw [Adler32State.add, h.b_toNat hspread, hdata, Adler.second_snoc, Adler.first_snoc]
    omega
  · rw [Adler32State.add, h.a_toNat hspread]
    omega
  · rw [Adler32State.add, h.b_toNat hspread]
    nlinarith

theorem Carries.reduce {data : Bytes} {spread : ℕ} {state : Adler32State}
    (h : Carries data spread state) : Carries data 0 state.reduce := by
  have hmod : MOD_ADLER.toNat = 65521 := rfl
  refine ⟨?_, ?_, ?_, ?_⟩
  · rw [Adler32State.reduce, UInt32.toNat_mod, hmod, Nat.mod_mod]
    exact h.first
  · rw [Adler32State.reduce, UInt32.toNat_mod, hmod, Nat.mod_mod]
    exact h.second
  · rw [Adler32State.reduce, UInt32.toNat_mod, hmod]
    omega
  · rw [Adler32State.reduce, UInt32.toNat_mod, hmod]
    omega

theorem Carries.block {data : Bytes} {spread : ℕ} {state : Adler32State}
    (h : Carries data spread state) (block : Bytes) (hblock : spread + block.length ≤ block_size) :
    Carries (data ++ block) (spread + block.length) (block.foldl Adler32State.add state) ∧
      ∀ sum ∈ sums state block, sum < 2 ^ 32 := by
  induction block generalizing data spread state with
  | nil =>
    rw [List.append_nil]
    exact ⟨h, fun sum hsum => (List.not_mem_nil hsum).elim⟩
  | cons c block ih =>
    rw [List.length_cons] at hblock
    have hspread : spread < block_size := by omega
    obtain ⟨hcarries, hsums⟩ := ih (h.add hspread c) (by omega)
    constructor
    · rw [List.append_assoc, List.singleton_append] at hcarries
      rw [List.foldl_cons, List.length_cons, Nat.add_comm block.length 1, ← Nat.add_assoc]
      exact hcarries
    · rw [sums, List.forall_mem_cons, List.forall_mem_cons]
      refine ⟨?_, ?_, hsums⟩
      · rw [← h.a_toNat hspread c]
        exact UInt32.toNat_lt _
      · rw [h.a_toNat hspread c, ← h.b_toNat hspread c]
        exact UInt32.toNat_lt _

theorem Carries.update {data : Bytes} {state : Adler32State} (h : Carries data 0 state)
    (chunk : Bytes) : Carries (data ++ chunk) 0 (zut_adler32_update state chunk) ∧
      ∀ sum ∈ update_sums state chunk, sum < 2 ^ 32 := by
  induction state, chunk using zut_adler32_update.induct generalizing data with
  | case1 state chunk hlong ih =>
    rw [zut_adler32_update, if_pos hlong, update_sums, if_pos hlong]
    have htake : (chunk.take block_size).length = block_size := List.length_take_of_le hlong
    obtain ⟨hcarries, hsums⟩ := h.block (chunk.take block_size) (by omega)
    obtain ⟨hrest, hrest_sums⟩ := ih hcarries.reduce
    rw [List.append_assoc, List.take_append_drop] at hrest
    exact ⟨hrest, List.forall_mem_append.mpr ⟨hsums, hrest_sums⟩⟩
  | case2 state chunk hshort =>
    rw [zut_adler32_update, if_neg hshort, update_sums, if_neg hshort]
    obtain ⟨hcarries, hsums⟩ := h.block chunk (by omega)
    exact ⟨hcarries.reduce, hsums⟩

theorem Carries.chunks {data : Bytes} {state : Adler32State} (h : Carries data 0 state)
    (chunks : List Bytes) :
    Carries (data ++ chunks.flatten) 0 (chunks.foldl zut_adler32_update state) ∧
      ∀ sum ∈ chunk_sums state chunks, sum < 2 ^ 32 := by
  induction chunks generalizing data state with
  | nil =>
    rw [List.flatten_nil, List.append_nil]
    exact ⟨h, fun sum hsum => (List.not_mem_nil hsum).elim⟩
  | cons chunk chunks ih =>
    obtain ⟨hcarries, hsums⟩ := h.update chunk
    obtain ⟨hrest, hrest_sums⟩ := ih hcarries
    rw [List.append_assoc] at hrest
    rw [List.flatten_cons, List.foldl_cons, chunk_sums]
    exact ⟨hrest, List.forall_mem_append.mpr ⟨hsums, hrest_sums⟩⟩

theorem Carries.shift {data : Bytes} {state : Adler32State} (h : Carries data 0 state) :
    (state.b <<< 16).toNat = state.b.toNat <<< 16 := by
  have hb := h.b_le
  rw [UInt32.toNat_shiftLeft, show (16 : UInt32).toNat % 32 = 16 from rfl, Nat.shiftLeft_eq]
  exact Nat.mod_eq_of_lt (by omega)

/-- The halves of the checksum do not meet. -/
theorem Carries.finalize {data : Bytes} {state : Adler32State} (h : Carries data 0 state) :
    (zut_adler32_finalize state).toNat = Adler.checksum 65521 (data.map UInt8.toNat) := by
  have ha := h.a_le
  have hb := h.b_le
  have ha_lt : state.a.toNat < 2 ^ 16 := by omega
  rw [zut_adler32_finalize, UInt32.toNat_or, h.shift, Adler.checksum, ← h.first, ← h.second,
    Nat.mod_eq_of_lt (by omega), Nat.mod_eq_of_lt (by omega), ← Nat.shiftLeft_eq,
    Nat.shiftLeft_add_eq_or_of_lt ha_lt]

/-- However the data is cut, its checksum is that of the whole, and no sum is cut to 32 bits; nor
is the half that `finalize` shifts. -/
theorem adler32_exact (chunks : List Bytes) :
    let state := chunks.foldl zut_adler32_update {}
    (zut_adler32_finalize state).toNat =
        Adler.checksum 65521 (chunks.flatten.map UInt8.toNat) ∧
      (∀ sum ∈ chunk_sums {} chunks, sum < 2 ^ 32) ∧ state.b.toNat * 2 ^ 16 < 2 ^ 32 := by
  intro state
  obtain ⟨hcarries, hsums⟩ := carries_start.chunks chunks
  have hb : state.b.toNat ≤ _ := hcarries.b_le
  rw [List.nil_append] at hcarries
  refine ⟨hcarries.finalize, hsums, ?_⟩
  omega

/-! The checksums of the reads and writes are computed without regard to the 32 bits. -/

def Adler32State.as_nat (state : Adler32State) : zds.Adler32State := ⟨state.a.toNat, state.b.toNat⟩

theorem Carries.add_as_nat {data : Bytes} {spread : ℕ} {state : Adler32State}
    (h : Carries data spread state) (block : Bytes) (hblock : spread + block.length ≤ block_size) :
    state.as_nat.add block = (block.foldl Adler32State.add state).as_nat := by
  induction block generalizing data spread state with
  | nil => rfl
  | cons c block ih =>
    rw [List.length_cons] at hblock
    have hspread : spread < block_size := by omega
    have hnext := ih (h.add hspread c) (by omega)
    rw [Adler32State.as_nat, Adler32State.add, h.a_toNat hspread, h.b_toNat hspread] at hnext
    rw [List.foldl_cons, Adler32State.add, ← hnext]
    rfl

theorem reduce_as_nat (state : Adler32State) : state.as_nat.reduce = state.reduce.as_nat := by
  rw [Adler32State.as_nat, Adler32State.as_nat, Adler32State.reduce, UInt32.toNat_mod,
    UInt32.toNat_mod]
  rfl

theorem Carries.update_as_nat {data : Bytes} {state : Adler32State} (h : Carries data 0 state)
    (chunk : Bytes) : state.as_nat.update chunk = (zut_adler32_update state chunk).as_nat := by
  induction state, chunk using zut_adler32_update.induct generalizing data with
  | case1 state chunk hlong ih =>
    have htake : (chunk.take block_size).length = block_size := List.length_take_of_le hlong
    obtain ⟨hcarries, -⟩ := h.block (chunk.take block_size) (by omega)
    have hadd := h.add_as_nat (chunk.take block_size) (by omega)
    rw [zut_adler32_update, if_pos hlong, ← ih hcarries.reduce, ← reduce_as_nat, ← hadd,
      zds.Adler32State.update]
    exact if_pos hlong
  | case2 state chunk hshort =>
    have hadd := h.add_as_nat chunk (by omega)
    rw [zut_adler32_update, if_neg hshort, ← reduce_as_nat, ← hadd, zds.Adler32State.update]
    exact if_neg hshort

theorem calc_adler32_checksum_eq (input : Bytes) : zds.zut_calc_adler32_checksum input =
    (zut_adler32_finalize (zut_adler32_update {} input)).toNat := by
  obtain ⟨hcarries, -⟩ := carries_start.update input
  have hstate : (({} : zds.Adler32State).update input) = (zut_adler32_update {} input).as_nat :=
    carries_start.update_as_nat input
  rw [zds.zut_calc_adler32_checksum, hstate, zut_adler32_finalize, UInt32.toNat_or, hcarries.shift]
  rfl

end Zowex.zut
