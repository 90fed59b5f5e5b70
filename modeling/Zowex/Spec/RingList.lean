import Zowex.Spec.KeyRings

/-! The list of key rings: the result of GetRingInfo, counts and strings with their lengths before
them, as `zkr_list_rings` reads it. -/

namespace Zowex.zkr

structure ZKRRingCert where
  owner : Bytes
  label : Bytes
  deriving DecidableEq

structure ZKRRingEntry where
  owner : Bytes
  name : Bytes
  certs : List ZKRRingCert
  deriving DecidableEq

/-- The bytes of a number of four bytes. -/
def int_of (bytes : Bytes) : ℤ :=
  (BitVec.ofNat 32 (bytes.foldl (fun n byte => n * 256 + byte.toNat) 0)).toInt

section

variable (buf : Bytes)

/-- What is in storage behind the cursor; none where it is not in the buffer. -/
def read_at (cur n : ℕ) : Option Bytes :=
  if cur + n ≤ buf.length then some ((buf.drop cur).take n) else none

end

/-- Whether all that the counts announce is in the buffer, or where it ends. -/
inductive Ending
  | whole (rest : Bytes)
  | elsewhere
  | in_certificate
  deriving DecidableEq

def int_bytes (n : ℕ) : Bytes :=
  [UInt8.ofNat (n / 2 ^ 24), UInt8.ofNat (n / 2 ^ 16), UInt8.ofNat (n / 2 ^ 8), UInt8.ofNat n]

def lp_string (text : Bytes) : Bytes := UInt8.ofNat text.length :: text

def ZKRRingEntry.layout (ring : ZKRRingEntry) : Bytes :=
  lp_string ring.owner ++ lp_string ring.name ++ int_bytes ring.certs.length ++
    ring.certs.flatMap fun cert => lp_string cert.owner ++ lp_string cert.label

def layout (rings : List ZKRRingEntry) : Bytes :=
  int_bytes rings.length ++ rings.flatMap ZKRRingEntry.layout

/-- Strings of up to 255 bytes, and counts that are counts. -/
structure Fits (rings : List ZKRRingEntry) : Prop where
  ring_count : rings.length < 2 ^ 31
  cert_count : ∀ ring ∈ rings, ring.certs.length < 2 ^ 31
  owner : ∀ ring ∈ rings, ring.owner.length ≤ 255
  name : ∀ ring ∈ rings, ring.name.length ≤ 255
  cert : ∀ ring ∈ rings, ∀ cert ∈ ring.certs, cert.owner.length ≤ 255 ∧ cert.label.length ≤ 255

end Zowex.zkr
