import Mathlib.Data.Int.Basic
import Zowex.Lib.Records
import Zowex.Spec.Charset

/-! The BPAM output of `zam.c`. Records are put into blocks in a buffer, which is written when it
is full and when the data set is closed. What the language leaves undefined, as a store outside the
buffer or one of a negative length, has no result. -/

namespace Zowex.zam

/-- What is read of the DCB: three bits of `dcbrecfm`, and the two lengths. -/
structure Dcb where
  dcbrecf : Bool
  dcbrecv : Bool
  dcbrecbr : Bool
  dcblrecl : Int16
  dcbblksi : Int16

inductive DetailRc
  | ZDS_RTNCD_UNSUPPORTED_RECFM
  | ZDS_RTNCD_UNSUPPORTED_BLOCK_SIZE
  | ZDS_RTNCD_INVALID_BLOCK_SIZE
  deriving DecidableEq, Repr

/-- An `int` where the other side of a comparison is a size. -/
def to_unsigned (i : ℤ) : ℤ := i % 2 ^ 32

/-- The size of a block or of a record descriptor word. -/
def sizeof_descriptor : ℕ := 4

def validate_dcb_attributes (dcb : Dcb) : Option (Except DetailRc Unit) :=
  if !dcb.dcbrecf && !dcb.dcbrecv then some (.error .ZDS_RTNCD_UNSUPPORTED_RECFM)
  else
    let block_size := dcb.dcbblksi.toInt
    let lrecl := dcb.dcblrecl.toInt
    if block_size < 1 then some (.error .ZDS_RTNCD_UNSUPPORTED_BLOCK_SIZE)
    else if dcb.dcbrecf then
      -- a remainder by zero is undefined
      if lrecl = 0 then none
      else if block_size.tmod lrecl ≠ 0 then some (.error .ZDS_RTNCD_INVALID_BLOCK_SIZE)
      else some (.ok ())
    else if to_unsigned block_size < to_unsigned (lrecl + sizeof_descriptor) then
      some (.error .ZDS_RTNCD_INVALID_BLOCK_SIZE)
    else some (.ok ())

/-- `free_location` is an offset into the buffer. -/
structure IoCtrl where
  dcb : Dcb
  dcbofopn : Bool
  buffer : Bytes
  free_location : ℕ
  bytes_in_buffer : ℕ
  lines_written : ℕ
  /-- What `write_sync` was called with. -/
  blocks : List Bytes

/-- The end of `open_output_bpam`. The storage that was obtained has any content. -/
def open_output_bpam (dcb : Dcb) (storage : Bytes) : IoCtrl where
  dcb := dcb
  dcbofopn := true
  buffer := storage
  free_location := 0
  bytes_in_buffer := 0
  lines_written := 0
  blocks := []

namespace IoCtrl

def store (ioc : IoCtrl) (place : ℕ) (data : Bytes) : Option IoCtrl :=
  (Records.store ioc.buffer place data).map fun buffer => { ioc with buffer }

def memset (ioc : IoCtrl) (place : ℕ) (c : UInt8) (length : ℤ) : Option IoCtrl :=
  if length < 0 then none else ioc.store place (List.replicate length.toNat c)

def memcpy (ioc : IoCtrl) (place : ℕ) (data : Bytes) (length : ℤ) : Option IoCtrl :=
  if length < 0 then none else ioc.store place (data.take length.toNat)

/-- The block has the length that `dcbblksi` has at the time. -/
def write_sync (ioc : IoCtrl) (dcbblksi : ℕ) : IoCtrl :=
  { ioc with blocks := ioc.blocks ++ [ioc.buffer.take dcbblksi] }

def handle_fixed_record (cs : Charset) (ioc : IoCtrl) (data : Bytes) (length : ℤ) :
    Option IoCtrl := do
  let lrecl := ioc.dcb.dcblrecl.toInt
  let blocksize := ioc.dcb.dcbblksi.toInt
  let ioc ← ioc.memset ioc.free_location (cs.code ' ') lrecl
  let ioc ← ioc.memcpy ioc.free_location data length
  let ioc := { ioc with
    lines_written := ioc.lines_written + 1
    bytes_in_buffer := ioc.bytes_in_buffer + lrecl.toNat
    free_location := ioc.free_location + lrecl.toNat }
  if blocksize ≤ ioc.bytes_in_buffer then
    some { ioc.write_sync blocksize.toNat with bytes_in_buffer := 0, free_location := 0 }
  else some ioc

def init_bdw (ioc : IoCtrl) : Option IoCtrl := do
  let ioc ← ioc.store 2 [0, 0]
  if ioc.bytes_in_buffer = 0 then
    some { ioc with
      free_location := ioc.free_location + sizeof_descriptor
      bytes_in_buffer := sizeof_descriptor }
  else some ioc

def write_variable_record (ioc : IoCtrl) : Option IoCtrl := do
  let ioc ← ioc.store 0 (Records.halfword ioc.bytes_in_buffer)
  let ioc := ioc.write_sync ioc.bytes_in_buffer
  { ioc with
    free_location := sizeof_descriptor
    bytes_in_buffer := sizeof_descriptor }.store 0 (Records.halfword 0)

def copy_variable_record (ioc : IoCtrl) (data : Bytes) (length : ℤ) : Option IoCtrl := do
  let ioc := { ioc with lines_written := ioc.lines_written + 1 }
  let ioc ← ioc.store (ioc.free_location + 2) [0, 0]
  let ioc ← ioc.memcpy (ioc.free_location + sizeof_descriptor) data length
  let len := (length + sizeof_descriptor).toNat
  let ioc ← ioc.store ioc.free_location (Records.halfword len)
  some { ioc with
    bytes_in_buffer := ioc.bytes_in_buffer + len
    free_location := ioc.free_location + len }

/-- Whether a record with its descriptor word is less than what is left of the block. -/
def has_room (ioc : IoCtrl) (length : ℤ) : Bool :=
  to_unsigned (length + sizeof_descriptor) <
    to_unsigned (ioc.dcb.dcbblksi.toInt - ioc.bytes_in_buffer)

def handle_variable_record (ioc : IoCtrl) (data : Bytes) (length : ℤ) : Option IoCtrl := do
  let ioc ← ioc.init_bdw
  if !ioc.dcb.dcbrecbr then
    let ioc ← ioc.copy_variable_record data length
    ioc.write_variable_record
  else
    let ioc ← if ioc.has_room length then some ioc else ioc.write_variable_record
    if ioc.has_room length then ioc.copy_variable_record data length else some ioc

def write_output_bpam (cs : Charset) (ioc : IoCtrl) (data : Bytes) : Option IoCtrl :=
  let lrecl := ioc.dcb.dcblrecl.toInt
  let length : ℤ := data.length
  if ioc.dcb.dcbrecv then
    let max_data_len := lrecl - sizeof_descriptor
    ioc.handle_variable_record data (if length > max_data_len then max_data_len else length)
  else ioc.handle_fixed_record cs data (if length > lrecl then lrecl else length)

def write_flush (ioc : IoCtrl) : Option IoCtrl :=
  if ioc.dcbofopn ∧ 0 < ioc.bytes_in_buffer then
    if ioc.dcb.dcbrecv ∧ ioc.bytes_in_buffer ≤ sizeof_descriptor then some ioc
    else do
      let ioc ← if ioc.dcb.dcbrecv then ioc.store 0 (Records.halfword ioc.bytes_in_buffer)
        else some ioc
      some { ioc.write_sync ioc.bytes_in_buffer with bytes_in_buffer := 0, free_location := 0 }
  else some ioc

/-- The records one after the other, up to the first flush of `close_output_bpam`. -/
def write_records (cs : Charset) (ioc : IoCtrl) : List Bytes → Option IoCtrl
  | [] => ioc.write_flush
  | record :: records => do
    let ioc ← ioc.write_output_bpam cs record
    ioc.write_records cs records

end IoCtrl

/-! What is expected of the blocks. -/

/-- A record as it is in the data set. -/
def Dcb.record (cs : Charset) (dcb : Dcb) (data : Bytes) : Bytes :=
  if dcb.dcbrecv then data.take (dcb.dcblrecl.toInt - sizeof_descriptor).toNat
  else (data.take dcb.dcblrecl.toInt.toNat).rightpad dcb.dcblrecl.toInt.toNat (cs.code ' ')

/-- The records of a block, unless its lengths do not fit together. -/
def Dcb.deblock (dcb : Dcb) (block : Bytes) : Option (List Bytes) :=
  if dcb.dcbrecv then Records.read_described block
  else Records.read_fixed dcb.dcblrecl.toInt.toNat block

structure NoRecordLost (cs : Charset) (dcb : Dcb) (records : List Bytes) (ioc : IoCtrl) :
    Prop where
  deblocked : (ioc.blocks.mapM dcb.deblock).map List.flatten = some (records.map (dcb.record cs))
  bounded : ∀ block ∈ ioc.blocks, (block.length : ℤ) ≤ dcb.dcbblksi.toInt
  lines : ioc.lines_written = records.length

/-- The lengths leave room for the record: there is any, and a blocked record of variable length is
not cut to the whole of a block. -/
def Dcb.has_room_for (dcb : Dcb) (data : Bytes) : Prop :=
  if dcb.dcbrecv then
    sizeof_descriptor ≤ dcb.dcblrecl.toInt ∧
      ¬(dcb.dcbrecbr ∧ dcb.dcbblksi.toInt = dcb.dcblrecl.toInt + sizeof_descriptor ∧
        dcb.dcblrecl.toInt ≤ data.length + sizeof_descriptor)
  else 0 < dcb.dcblrecl.toInt

end Zowex.zam
