import Zowex.Spec.Dscb
import Zowex.Spec.Jobs

/-! What `zjb.cpp` says of a job from the terse section of the subsystem's answer: its status, its
type and the text of how it ended. -/

namespace Zowex.zjo

open zjb

/-! Values of `sttrxind`, of its low four bits, and of `sttrjtyp` (`iazssst.h`). -/

def sttrxab : BitVec 8 := 0x80
def sttrxinm : BitVec 8 := 0x0F
def sttrxnrm : BitVec 8 := 1
def sttrxcc : BitVec 8 := 2
def sttrxjcl : BitVec 8 := 3
def sttrxcan : BitVec 8 := 4
def sttrxsec : BitVec 8 := 7

def sttrstc : BitVec 8 := 1
def sttrtsu : BitVec 8 := 2

/-- `sttrmxrc`: the completion indicator, and the completion code. -/
structure Completion where
  sttrxind : BitVec 8
  sttrmxcc : BitVec 24
  deriving DecidableEq

/-- A `ZJB_JOB_INFO`. -/
structure JobEntry extends JobInfo where
  sttrclas : Bytes
  sttrjcor : Bytes
  subsystem : Bytes
  phase_text : Bytes
  sttrmxrc : Completion
  sttrjtyp : BitVec 8
  sttrphaz : BitVec 8
  deriving DecidableEq

/-- All of a `ZJob`. -/
structure JobStatus extends ZJob where
  status : Bytes
  full_status : Bytes
  retcode : Bytes
  correlator : Bytes
  subsystem : Bytes
  type : Bytes
  jobclass : Bytes
  phase : ℕ
  deriving DecidableEq

/-- The four bytes from `sttrxind` on, as an `int` of a big-endian machine. -/
def Completion.full (c : Completion) : BitVec 32 := c.sttrxind ++ c.sttrmxcc

/-- `parts[k]` of the union. -/
def parts (full : BitVec 32) (k : ℕ) : BitVec 8 := full.extractLsb' (8 * (3 - k)) 8

def zut_get_hex_char (num : BitVec 8) : Char :=
  "0123456789ABCDEF".toList.getD (num &&& 0xF).toNat ' '

def abend_text (full : BitVec 32) : List Char :=
  let full := full &&& 0x00FFF000
  let byte1 := parts full 1 >>> 4
  let byte2 := parts full 1 &&& 0x0F
  let byte3 := parts full 2 >>> 4
  "ABEND ".toList ++ [zut_get_hex_char byte1, zut_get_hex_char byte2, zut_get_hex_char byte3]

def cc_text (full : BitVec 32) : List Char :=
  let full := full &&& 0x00000FFF
  "CC ".toList ++ dscb.padded_digits 4 full.toNat

/-- The texts that take the place of the one from the completion code. -/
def special_text (sttrxind : BitVec 8) : Option (List Char) :=
  if sttrxind = sttrxjcl then some "JCL ERROR".toList
  else if sttrxind = sttrxcan then some "CANCELED".toList
  else if sttrxind = sttrxsec then some "SEC ERROR".toList
  else none

variable (cs : Charset)

def JobEntry.full_status (job : JobEntry) : Bytes := zut_rtrim cs (c_string job.phase_text)

def retcode_text (job : JobEntry) : List Char :=
  let text :=
    if job.full_status cs = cs.str "AWAITING OUTPUT" then
      if job.sttrmxrc.sttrxind &&& sttrxab ≠ 0 then abend_text job.sttrmxrc.full
      else cc_text job.sttrmxrc.full
    else []
  (special_text job.sttrmxrc.sttrxind).getD text

def job_status (job : JobEntry) : JobStatus :=
  let full_status := job.full_status cs
  { job_response job.toJobInfo with
    status :=
      if full_status = cs.str "AWAIT MAIN SELECT" then cs.str "INPUT"
      else if full_status = cs.str "EXECUTING" then cs.str "ACTIVE"
      else if full_status = cs.str "AWAITING OUTPUT" then cs.str "OUTPUT"
      else full_status
    full_status
    retcode := (retcode_text cs job).map cs.code
    correlator := job.sttrjcor
    subsystem := job.subsystem
    type :=
      if job.sttrjtyp = sttrstc then cs.str "STC"
      else if job.sttrjtyp = sttrtsu then cs.str "TSU"
      else cs.str "JOB"
    jobclass := job.sttrclas
    phase := job.sttrphaz.toNat }

def zjb_build_job_response (entries : List JobEntry) : List JobStatus := entries.map (job_status cs)

/-! How a job ended. -/

namespace Completion

variable (c : Completion)

def system_code : BitVec 12 := c.sttrmxcc.extractLsb' 12 12
def user_code : BitVec 12 := c.sttrmxcc.extractLsb' 0 12

/-- The low four bits of the indicator say how the job ended. -/
def kind : BitVec 8 := c.sttrxind &&& sttrxinm

def Abended : Prop := c.sttrxind &&& sttrxab ≠ 0

instance : Decidable c.Abended := inferInstanceAs (Decidable (_ ≠ _))

end Completion

inductive Outcome
  | ended (code : BitVec 12)
  | system_abend (code : BitVec 12)
  | user_abend (code : BitVec 12)
  | jcl_error
  | canceled
  | security_error
  deriving DecidableEq

/-- An abend without a system code is one with a user code. -/
def Completion.outcome (c : Completion) : Option Outcome :=
  if c.Abended then
    some (if c.system_code = 0 then .user_abend c.user_code else .system_abend c.system_code)
  else if c.kind = sttrxjcl then some .jcl_error
  else if c.kind = sttrxcan then some .canceled
  else if c.kind = sttrxsec then some .security_error
  else if c.kind = sttrxnrm ∨ c.kind = sttrxcc then some (.ended c.user_code)
  else none

def JobEntry.AwaitsOutput (job : JobEntry) : Prop :=
  job.full_status cs = cs.str "AWAITING OUTPUT"

instance (job : JobEntry) : Decidable (job.AwaitsOutput cs) :=
  inferInstanceAs (Decidable (_ = _))

/-- What is shown of a job that awaits output and ended in one of these ways. -/
def Shows (entries : List JobEntry) (outcome : Outcome) (retcode : Bytes) : Prop :=
  ∃ job ∈ entries.zip (zjb_build_job_response cs entries),
    job.1.AwaitsOutput cs ∧ job.1.sttrmxrc.outcome = some outcome ∧ job.2.retcode = retcode

instance (entries : List JobEntry) (outcome : Outcome) (retcode : Bytes) :
    Decidable (Shows cs entries outcome retcode) := inferInstanceAs (Decidable (∃ job ∈ _, _))

/-- The text tells how a job ended, and has the value of a condition code in decimal digits. -/
structure Faithful (entries : List JobEntry) : Prop where
  determines : ∀ outcome outcome' retcode, Shows cs entries outcome retcode →
    Shows cs entries outcome' retcode → outcome = outcome'
  decimal : ∀ code retcode, Shows cs entries (.ended code) retcode →
    ∃ digits : List Char, retcode = cs.str "CC " ++ digits.map cs.code ∧
      digits.all Char.isDigit ∧ Nat.ofDigitChars 10 digits 0 = code.toNat

namespace Completion

variable (c c' : Completion)

def UserAbend : Prop := c.Abended ∧ c.system_code = 0

/-- Ended with a condition code. -/
def Ended : Prop := ¬ c.Abended ∧ (c.kind = sttrxnrm ∨ c.kind = sttrxcc)

/-- A JCL error, a cancel or a security error whose indicator has another bit beside the kind. -/
def Flagged : Prop :=
  ¬ c.Abended ∧ (c.kind = sttrxjcl ∨ c.kind = sttrxcan ∨ c.kind = sttrxsec) ∧ c.sttrxind ≠ c.kind

structure ToldApart : Prop where
  user_abends : c.UserAbend → c'.UserAbend → c.user_code = c'.user_code
  flagged : c.Flagged → c'.Ended ∨ c'.Flagged → c.user_code = c'.user_code → c.kind = c'.kind

end Completion

end Zowex.zjo
