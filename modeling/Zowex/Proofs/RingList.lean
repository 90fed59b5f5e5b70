import Zowex.Spec.RingList

/-! The list of key rings against what the buffer announces. The cursor stops at the end of the
buffer, and a certificate that the end cuts is kept as it is. -/

namespace Zowex.zkr

variable {buf rest rest' text : Bytes} {cur left : ℕ} {certs : List ZKRRingCert}
  {rings : List ZKRRingEntry} {response : Response}

/-- The cursor is in the buffer, and this is behind it. -/
structure At (buf : Bytes) (cur : ℕ) (rest : Bytes) : Prop where
  le : cur ≤ buf.length
  drop : buf.drop cur = rest

theorem at_end (buf : Bytes) : At buf buf.length [] := ⟨le_rfl, List.drop_length⟩

theorem At.length (h : At buf cur rest) : cur + rest.length = buf.length := by
  have hle := h.le
  rw [← h.drop, List.length_drop]
  omega

theorem At.forward (h : At buf cur rest) {n : ℕ} (hn : n ≤ rest.length) :
    At buf (cur + n) (rest.drop n) where
  le := by
    have hlength := h.length
    omega
  drop := by rw [← h.drop, List.drop_drop]

theorem At.read (h : At buf cur rest) {n : ℕ} (hn : n ≤ rest.length) :
    read_at buf cur n = some (rest.take n) := by
  have hlength := h.length
  rw [read_at, if_pos (by omega), h.drop]

/-! Strings. -/

/-- The rings that are given for those that are there: the last of them with a certificate that is
not, where the buffer ends in one. -/
inductive Given : Ending → List ZKRRingEntry → List ZKRRingEntry → Prop
  | whole {rest : Bytes} {rings : List ZKRRingEntry} : Given (.whole rest) rings rings
  | elsewhere {rings : List ZKRRingEntry} : Given .elsewhere rings rings
  | in_certificate {rings : List ZKRRingEntry} {ring : ZKRRingEntry} {cert : ZKRRingCert} :
    Given .in_certificate (rings ++ [ring])
      (rings ++ [⟨ring.owner, ring.name, ring.certs ++ [cert]⟩])

theorem Given.cons {ending : Ending} {found given : List ZKRRingEntry} (h : Given ending found given)
    (ring : ZKRRingEntry) : Given ending (ring :: found) (ring :: given) := by
  cases h with
  | whole => exact .whole
  | elsewhere => exact .elsewhere
  | in_certificate =>
    rw [← List.cons_append, ← List.cons_append]
    exact .in_certificate

theorem int_of_bytes {n : ℕ} (h : n < 2 ^ 31) : int_of (int_bytes n) = n := by
  have hbytes : (int_bytes n).foldl (fun n byte => n * 256 + byte.toNat) 0 = n := by
    simp only [int_bytes, List.foldl_cons, List.foldl_nil, UInt8.toNat_ofNat']
    omega
  rw [int_of, hbytes, BitVec.toInt_eq_toNat_of_lt] <;> rw [BitVec.toNat_ofNat] <;> omega

theorem length_int_bytes (n : ℕ) : (int_bytes n).length = 4 := rfl

theorem Given.eq {ending : Ending} {found given : List ZKRRingEntry}
    (h : Given ending found given) (hending : ending ≠ .in_certificate) : given = found := by
  cases h with
  | whole => rfl
  | elsewhere => rfl
  | in_certificate => exact absurd rfl hending

end Zowex.zkr
