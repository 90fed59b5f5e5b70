import Mathlib.Tactic

/-! Records in a block, one after the other, and the memory a block is built in. A record of
variable length, and a block of such records, begins with a word that holds its length. -/

namespace Records

variable {α β : Type*}

/-- Reads pieces until nothing is left, in so many rounds. -/
def read_all (next : List α → Option (β × List α)) : ℕ → List α → Option (List β)
  | _, [] => some []
  | 0, _ :: _ => none
  | n + 1, x :: xs =>
    match next (x :: xs) with
    | some (piece, rest) => (read_all next n rest).map (piece :: ·)
    | none => none

/-- Pieces that can each be read back are read back from what they make together. -/
theorem read_all_flatMap {next : List α → Option (β × List α)} (write : β → List α)
    {pieces : List β} (hnext : ∀ p ∈ pieces, ∀ rest, next (write p ++ rest) = some (p, rest))
    (hne : ∀ p ∈ pieces, write p ≠ []) {n : ℕ} (hn : pieces.length ≤ n) :
    read_all next n (pieces.flatMap write) = some pieces := by
  induction pieces generalizing n with
  | nil => cases n <;> rfl
  | cons p pieces ih =>
    obtain ⟨m, rfl⟩ : ∃ m, n = m + 1 := ⟨n - 1, by rw [List.length_cons] at hn; omega⟩
    have hrest := ih (fun q hq => hnext q (List.mem_cons_of_mem p hq))
      (fun q hq => hne q (List.mem_cons_of_mem p hq)) (Nat.le_of_succ_le_succ hn)
    have hfirst := hnext p List.mem_cons_self (pieces.flatMap write)
    rw [List.flatMap_cons]
    obtain ⟨x, xs, hx⟩ := List.exists_cons_of_ne_nil
      (List.append_ne_nil_of_left_ne_nil (hne p List.mem_cons_self) (pieces.flatMap write))
    rw [hx] at hfirst ⊢
    simp only [read_all, hfirst, hrest, Option.map_some]

theorem length_le_flatMap {write : β → List α} {pieces : List β}
    (hne : ∀ p ∈ pieces, write p ≠ []) : pieces.length ≤ (pieces.flatMap write).length := by
  induction pieces with
  | nil => exact Nat.le_refl 0
  | cons p pieces ih =>
    have hpos := List.length_pos_iff.mpr (hne p List.mem_cons_self)
    have hrest := ih fun q hq => hne q (List.mem_cons_of_mem p hq)
    rw [List.flatMap_cons, List.length_append, List.length_cons]
    omega

/-! Records of one length. -/

def take_fixed (n : ℕ) (xs : List α) : Option (List α × List α) :=
  if n ≤ xs.length then some (xs.take n, xs.drop n) else none

def read_fixed (n : ℕ) (block : List α) : Option (List (List α)) :=
  read_all (take_fixed n) block.length block

theorem take_fixed_append {n : ℕ} {record : List α} (h : record.length = n) (rest : List α) :
    take_fixed n (record ++ rest) = some (record, rest) := by
  subst h
  rw [take_fixed, if_pos (by rw [List.length_append]; omega), List.take_left, List.drop_left]

theorem read_fixed_flatten {n : ℕ} (hn : 0 < n) {records : List (List α)}
    (h : ∀ r ∈ records, r.length = n) : read_fixed n records.flatten = some records := by
  have hne : ∀ r ∈ records, id r ≠ [] := by
    intro r hr hnil
    have hlength := h r hr
    rw [show r = [] from hnil] at hlength
    exact absurd hlength (by simpa using hn.ne)
  have hread := read_all_flatMap id
    (fun r hr rest => take_fixed_append (h r hr) rest) hne
    (n := records.flatten.length) (by simpa using length_le_flatMap hne)
  simpa [read_fixed] using hread

/-! Records with a descriptor word. -/

def halfword (n : ℕ) : List UInt8 := [UInt8.ofNat (n / 256), UInt8.ofNat n]

def described (data : List UInt8) : List UInt8 := halfword (data.length + 4) ++ [0, 0] ++ data

def take_described : List UInt8 → Option (List UInt8 × List UInt8)
  | high :: low :: 0 :: 0 :: rest =>
    let length := high.toNat * 256 + low.toNat
    if 4 ≤ length then take_fixed (length - 4) rest else none
  | _ => none

/-- The records of a block that is described as a whole. -/
def read_described (block : List UInt8) : Option (List (List UInt8)) :=
  match take_described block with
  | some (records, []) => read_all take_described records.length records
  | _ => none

theorem halfword_toNat {n : ℕ} (h : n < 65536) :
    (UInt8.ofNat (n / 256)).toNat * 256 + (UInt8.ofNat n).toNat = n := by
  rw [UInt8.toNat_ofNat', UInt8.toNat_ofNat']
  omega

theorem length_described (data : List UInt8) : (described data).length = data.length + 4 := by
  simp [described, halfword]

theorem described_ne_nil (data : List UInt8) : described data ≠ [] :=
  List.length_pos_iff.mp (by rw [length_described]; omega)

theorem take_described_append {data : List UInt8} (h : data.length + 4 < 65536)
    (rest : List UInt8) : take_described (described data ++ rest) = some (data, rest) := by
  simp only [described, halfword, List.cons_append, List.nil_append, take_described,
    halfword_toNat h]
  rw [if_pos (by omega), Nat.add_sub_cancel]
  exact take_fixed_append rfl rest

/-- The records of a described block are read back. -/
theorem read_described_described {records : List (List UInt8)}
    (h : (records.flatMap described).length + 4 < 65536) :
    read_described (described (records.flatMap described)) = some records := by
  have hblock := take_described_append h []
  rw [List.append_nil] at hblock
  have hnext : ∀ r ∈ records, ∀ rest, take_described (described r ++ rest) = some (r, rest) := by
    intro r hr rest
    have hle := (List.sublist_flatten_of_mem (List.mem_map_of_mem (f := described) hr)).length_le
    rw [length_described, ← List.flatMap_def] at hle
    exact take_described_append (by omega) rest
  rw [read_described, hblock]
  exact read_all_flatMap described hnext (fun r _ => described_ne_nil r)
    (length_le_flatMap fun r _ => described_ne_nil r)

/-! The memory. -/

/-- The memory with data stored in it, if it has room for them there. -/
def store (memory : List α) (place : ℕ) (data : List α) : Option (List α) :=
  if place + data.length ≤ memory.length then
    some (memory.take place ++ data ++ memory.drop (place + data.length))
  else none

theorem store_append (before after : List α) {old data : List α} (h : old.length = data.length) :
    store (before ++ old ++ after) before.length data = some (before ++ data ++ after) := by
  have hroom : before.length + data.length ≤ (before ++ old ++ after).length := by
    simp only [List.length_append]
    omega
  have hdrop : (before ++ old ++ after).drop (before.length + data.length) = after := by
    rw [← h, ← List.length_append, List.drop_left]
  rw [store, if_pos hroom, hdrop, List.append_assoc before old, List.take_left]

/-- A store behind what is written so far. -/
theorem store_behind {before after data : List α} (hroom : data.length ≤ after.length) :
    store (before ++ after) before.length data =
      some (before ++ data ++ after.drop data.length) := by
  have h := store_append before (after.drop data.length) (List.length_take_of_le hroom)
  rwa [List.append_assoc, List.take_append_drop] at h

/-- Data stored over the pad of the record it is in. -/
theorem store_padded (before : List α) {after data : List α} {n : ℕ} (c : α)
    (hroom : n ≤ after.length) (hdata : data.length ≤ n) :
    ((store (before ++ after) before.length (List.replicate n c)).bind fun memory =>
      store memory before.length data) = some (before ++ data.rightpad n c ++ after.drop n) := by
  have hsplit : List.replicate n c =
      List.replicate data.length c ++ List.replicate (n - data.length) c := by
    rw [List.replicate_append_replicate, Nat.add_sub_cancel' hdata]
  have hlength : (List.replicate data.length c).length = data.length := List.length_replicate
  have hpad := store_append before (List.replicate (n - data.length) c ++ after.drop n) hlength
  rw [store_behind (by rwa [List.length_replicate]), Option.bind_some, List.length_replicate,
    hsplit, List.append_assoc, List.append_assoc, ← List.append_assoc before, hpad, List.rightpad]
  simp only [List.append_assoc]

end Records
