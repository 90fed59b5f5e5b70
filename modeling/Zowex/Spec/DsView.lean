import Zowex.Spec.DsCommands

/-! The ways out of `handle_data_set_view` of `ds.cpp`: its return code, and what was passed to
`bpxwdyn`. -/

namespace Zowex.ds

open zds plugin

variable (cs : Charset) {Shift Contents : Type} (iconv_open : IconvOpen Shift)
  (lib : Library Contents) (sv : Services)

/-- How a view ends, with what it has read where it comes to that. -/
structure Viewed where
  rc : ℤ
  log : List tool.Call
  read : Option (Except ReadError Bytes) := none

/-- What is allocated for the volume. -/
def view_dds (args : ArgumentMap) : List Bytes :=
  let volser := get_string cs args "volser"
  if volser ≠ [] then [alloc_command cs (cs.str "input") (get_string cs args "dsn") volser] else []

/-- The return code of `zds_read` or `zds_read_streamed`. -/
def read_rc (read : Option (Except ReadError Bytes)) : ℤ :=
  match read with
  | none => zjb.RTNCD_FAILURE
  | some read => if read.isOk then 0 else zjb.RTNCD_FAILURE

def view (args : ArgumentMap) (s : System Contents) : Viewed :=
  let dds := view_dds cs args
  let (rc, log) := tool.zut_loop_dynalloc sv.tool 0 dds
  if rc ≠ 0 then ⟨zjb.RTNCD_FAILURE, log, none⟩
  else
    let read := handle_data_set_view cs iconv_open lib sv args s
    let rc := read_rc read
    -- the streamed read goes on with its return code, the buffered one returns
    if get_string cs args "pipe-path" = [] ∧ rc ≠ 0 then ⟨zjb.RTNCD_FAILURE, log, read⟩
    else if dds.length > 0 then
      let (rc, freed) := tool.zut_free_dynalloc_dds cs sv.tool log.length dds
      if rc ≠ 0 then ⟨zjb.RTNCD_FAILURE, log ++ freed, read⟩ else ⟨rc, log ++ freed, read⟩
    else ⟨rc, log, read⟩

end Zowex.ds
