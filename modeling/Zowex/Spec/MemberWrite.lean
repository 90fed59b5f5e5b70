import Zowex.Spec.Encoding
import Zowex.Spec.MemberLines
import Zowex.Spec.Zam

/-! The write of a member, from the allocation of its DD to the release: `open_output_bpam` and
`close_output_bpam` of `zam.c`, their wrappers, and the two functions of `zds.cpp` that write the
lines in between. -/

namespace Zowex.zds

inductive Resource
  | dd
  | enq
  | reserve
  | dcb
  | buffer
  deriving DecidableEq, Repr

inductive Event
  | acquire (r : Resource)
  | release (r : Resource)
  deriving DecidableEq, Repr

/-- What the services give in one run, true for a zero return code. Those that are called once
take no argument, the others the records handed out so far. -/
structure BpamServices where
  alloc : Bool
  read_output_jfcb : Bool
  validate_jfcb_attributes : Bool
  enq : Bool
  get_ucb : Bool
  reserve : Bool
  open_output_dcb : Bool
  dcb_abend : Bool
  /-- Whether the DCB is open after the OPEN, after the records, and after the flush. -/
  dcbofopn : Bool
  open_after : List Bytes → Bool
  open_after_flush : List Bytes → Bool
  dcb : zam.Dcb
  dcbrecca : Bool
  open_pipe : Bool
  fdopen : Bool
  write : List Bytes → Bool
  write_flush : List Bytes → Bool
  update_ispf_statistics : Bool
  stow : Bool
  close_dcb : Bool
  deq_reserve : Bool
  deq : Bool
  free : Bool
  /-- Whether a return code that is not zero is `RTNCD_FAILURE`. -/
  failure_rc : Bool
  /-- What a STOW makes the member point to. -/
  written : List Bytes → List Bytes
  written_prefix (handed : List Bytes) : written handed <+: handed
  written_flushed (handed : List Bytes) : write_flush handed = true → written handed = handed
  /-- The system closes the DCB in an abend, which fails the write that is under way. -/
  open_after_nil : open_after [] = true
  write_abend (handed : List Bytes) (record : Bytes) :
    open_after (handed ++ [record]) = false → write (handed ++ [record]) = false
  flush_abend (handed : List Bytes) :
    open_after_flush handed = false → handed ≠ [] ∧ write_flush handed = false
  /-- The remainder by a record length of zero is undefined. -/
  dcb_defined : zam.validate_dcb_attributes dcb ≠ none

/-- What an `IO_CTRL` tells of its resources, and what was done with them so far. -/
structure IoCtrl where
  has_enq : Bool := false
  has_reserve : Bool := false
  dcbofopn : Bool := false
  buffer : Bool := false
  log : List Event := []

namespace IoCtrl

def acquire (ioc : IoCtrl) (r : Resource) : IoCtrl :=
  { ioc with log := ioc.log ++ [.acquire r] }

def release (ioc : IoCtrl) (r : Resource) : IoCtrl :=
  { ioc with log := ioc.log ++ [.release r] }

end IoCtrl

variable (sv : BpamServices)

def validate_dcb_attributes : Bool :=
  match zam.validate_dcb_attributes sv.dcb with
  | some (.ok ()) => true
  | _ => false

def open_output_bpam (ioc : IoCtrl) : Bool × IoCtrl :=
  if !sv.read_output_jfcb || !sv.validate_jfcb_attributes || !sv.enq then (false, ioc)
  else
    let ioc := { ioc.acquire .enq with has_enq := true }
    if !sv.get_ucb || !sv.reserve then (false, ioc)
    else
      let ioc := { ioc.acquire .reserve with has_reserve := true }
      let ioc := if sv.dcbofopn then { ioc.acquire .dcb with dcbofopn := true } else ioc
      if !sv.open_output_dcb || sv.dcb_abend || !ioc.dcbofopn || !validate_dcb_attributes sv then
        (false, ioc)
      else (true, { ioc.acquire .buffer with buffer := true })

/-- A DCB that is found closed was closed by the system. -/
def found_open (ioc : IoCtrl) (dcbofopn : Bool) : IoCtrl :=
  if ioc.dcbofopn && !dcbofopn then { ioc.release .dcb with dcbofopn := false } else ioc

/-- The return code, and whether there was a STOW. -/
def finalize_dcb (ioc : IoCtrl) : Bool × Bool × IoCtrl :=
  let stowed := sv.update_ispf_statistics && sv.stow
  (stowed && sv.close_dcb, stowed, { ioc.release .dcb with dcbofopn := false })

structure Closed where
  ok : Bool
  /-- What the member points to after a STOW. -/
  stored : Option (List Bytes)
  log : List Event

def close_output_bpam (ioc : IoCtrl) (handed : List Bytes) : Closed :=
  let flushed := !ioc.dcbofopn || handed = [] || sv.write_flush handed
  let ioc := found_open ioc (sv.open_after_flush handed)
  let (finalized, stowed, ioc) := if ioc.dcbofopn then finalize_dcb sv ioc else (true, false, ioc)
  let ioc := if ioc.buffer then ioc.release .buffer else ioc
  let (released, ioc) := if ioc.has_reserve then (sv.deq_reserve, ioc.release .reserve)
    else (true, ioc)
  let (dequeued, ioc) := if ioc.has_enq then (sv.deq, ioc.release .enq) else (true, ioc)
  { ok := flushed && finalized && released && dequeued
    stored := if stowed then some (sv.written handed) else none
    log := ioc.log }

inductive MemberError
  | not_allocated
  | not_opened
  | no_pipe
  | no_converter
  | encode_failed
  | write_failed
  | close_failed
  /-- An exception. -/
  | threw (e : zbase64.DecodeError)
  deriving DecidableEq

structure MemberRun where
  log : List Event
  stored : Option (List Bytes) := none
  result : Except MemberError TruncationTracker

/-- `ZDSOBPAM` closes what does not open. The DD is freed then, and when the run is over. -/
def zds_open_output_bpam : Except MemberRun IoCtrl :=
  if !sv.alloc then .error { log := [], result := .error .not_allocated }
  else
    let (ok, ioc) := open_output_bpam sv (({} : IoCtrl).acquire .dd)
    if ok then .ok ioc
    else
      let closed := close_output_bpam sv ioc []
      .error { log := closed.log ++ [.release .dd], stored := closed.stored
               result := .error .not_opened }

def zds_close_output_bpam (ioc : IoCtrl) (handed : List Bytes) : Closed :=
  let closed := close_output_bpam sv ioc handed
  { closed with log := closed.log ++ [.release .dd] }

/-- An error exit that closes first. -/
def close_with (ioc : IoCtrl) (handed : List Bytes) (e : MemberError) : MemberRun :=
  let closed := zds_close_output_bpam sv ioc handed
  { log := closed.log, stored := closed.stored, result := .error e }

/-- After the lines: an exception leaves everything as it is. -/
def end_of_lines (ioc : IoCtrl) (written : Written) : MemberRun :=
  let ioc := found_open ioc (sv.open_after written.handed)
  match written.exit with
  | .threw e => { log := ioc.log, result := .error (.threw e) }
  | .encode_failed => close_with sv ioc written.handed .encode_failed
  | .write_failed => close_with sv ioc written.handed .write_failed
  | .finished truncation =>
    let closed := zds_close_output_bpam sv ioc written.handed
    { log := closed.log, stored := closed.stored
      result := if closed.ok then .ok truncation else .error .close_failed }

def get_effective_lrecl : ℤ :=
  sv.dcb.dcblrecl.toInt - (if sv.dcb.dcbrecv then 4 else 0) - (if sv.dcbrecca then 1 else 0)

variable {Shift : Type} (cs : Charset) (iconv_open : IconvOpen Shift) (opts : ZEncode)

def line_setup : LineSetup :=
  let (setup, _) := setup_encoding cs iconv_open opts
  { newline_char := setup.newline_char
    is_asa := sv.dcbrecca
    max_len := get_effective_lrecl sv
    encode := encode_line_if_needed (setup.iconv_guard iconv_open) }

/-- Whether `validate_iconv_setup` succeeds for the options. -/
def iconv_valid : Bool :=
  let (setup, _) := setup_encoding cs iconv_open opts
  validate_iconv_setup setup (setup.iconv_guard iconv_open)

def zds_write_member_bpam (data : Bytes) : MemberRun :=
  match zds_open_output_bpam sv with
  | .error run => run
  | .ok ioc =>
    if !iconv_valid cs iconv_open opts then close_with sv ioc [] .no_converter
    else
      end_of_lines sv ioc
        (write_member_lines cs (line_setup sv cs iconv_open opts) sv.write data)

def zds_write_member_bpam_streamed (chunks : List Bytes) : MemberRun :=
  match zds_open_output_bpam sv with
  | .error run => run
  | .ok ioc =>
    if !sv.open_pipe || !sv.fdopen then close_with sv ioc [] .no_pipe
    else if !iconv_valid cs iconv_open opts then close_with sv ioc [] .no_converter
    else
      end_of_lines sv ioc
        (write_member_lines_streamed cs (line_setup sv cs iconv_open opts) sv.write chunks)

/-! What is released. -/

def Event.resource : Event → Resource
  | .acquire r => r
  | .release r => r

/-- Each resource that was acquired is released after that, once. -/
def Released (log : List Event) : Prop :=
  ∀ r, log.filter (fun e => e.resource = r) = [] ∨
    log.filter (fun e => e.resource = r) = [.acquire r, .release r]

end Zowex.zds
