import Zowex.Lib.Adler
import Zowex.Spec.Charset

/-! The checksum of `zut.cpp`, in the 32-bit arithmetic that it is computed in. -/

namespace Zowex.zut

structure Adler32State where
  a : UInt32 := 1
  b : UInt32 := 0
  deriving DecidableEq

def MOD_ADLER : UInt32 := 65521

def block_size : ℕ := 16

/-- `state.a += data[i]; state.b += state.a;` -/
def Adler32State.add (state : Adler32State) (c : UInt8) : Adler32State :=
  ⟨state.a + c.toUInt32, state.b + (state.a + c.toUInt32)⟩

def Adler32State.reduce (state : Adler32State) : Adler32State :=
  ⟨state.a % MOD_ADLER, state.b % MOD_ADLER⟩

/-- Blocks of 16 bytes, then the rest. -/
def zut_adler32_update (state : Adler32State) (data : Bytes) : Adler32State :=
  if block_size ≤ data.length then
    zut_adler32_update ((data.take block_size).foldl Adler32State.add state).reduce
      (data.drop block_size)
  else (data.foldl Adler32State.add state).reduce
termination_by data.length
decreasing_by
  rw [List.length_drop, block_size]
  rw [block_size] at *
  omega

def zut_adler32_finalize (state : Adler32State) : UInt32 := state.b <<< 16 ||| state.a

/-! What the additions come to before they are cut to 32 bits. -/

/-- The two sums of each byte that is added. -/
def sums (state : Adler32State) : Bytes → List ℕ
  | [] => []
  | c :: data =>
    (state.a.toNat + c.toNat) :: (state.b.toNat + (state.a + c.toUInt32).toNat) ::
      sums (state.add c) data

def update_sums (state : Adler32State) (data : Bytes) : List ℕ :=
  if block_size ≤ data.length then
    sums state (data.take block_size) ++
      update_sums ((data.take block_size).foldl Adler32State.add state).reduce
        (data.drop block_size)
  else sums state data
termination_by data.length
decreasing_by
  rw [List.length_drop, block_size]
  rw [block_size] at *
  omega

/-- The sums of one call after the other. -/
def chunk_sums (state : Adler32State) : List Bytes → List ℕ
  | [] => []
  | chunk :: chunks => update_sums state chunk ++ chunk_sums (zut_adler32_update state chunk) chunks

end Zowex.zut
