import Zowex.Spec.RpcServer

/-! Two of the commands `register_ds_commands` registers, around a handler, with the schemas
of `requests.hpp` and `responses.hpp`. -/

namespace Zowex.server

open validator

variable (cs : Charset)

def FIELD_REQUIRED (name : String) (type : FieldType) : FieldDescriptor :=
  { name := cs.str name, type, required := true }

def FIELD_OPTIONAL (name : String) (type : FieldType) : FieldDescriptor :=
  { name := cs.str name, type, required := false }

def ReadDatasetRequest : List FieldDescriptor := [
  FIELD_OPTIONAL cs "stream" .TYPE_ANY,
  FIELD_OPTIONAL cs "encoding" .TYPE_STRING,
  FIELD_OPTIONAL cs "localEncoding" .TYPE_STRING,
  FIELD_OPTIONAL cs "volume" .TYPE_STRING,
  FIELD_REQUIRED cs "dsname" .TYPE_STRING]

def ReadDatasetResponse : List FieldDescriptor := [
  FIELD_REQUIRED cs "success" .TYPE_BOOL,
  FIELD_OPTIONAL cs "encoding" .TYPE_STRING,
  FIELD_REQUIRED cs "etag" .TYPE_STRING,
  FIELD_REQUIRED cs "data" .TYPE_STRING,
  FIELD_OPTIONAL cs "contentLen" .TYPE_NUMBER]

def WriteDatasetRequest : List FieldDescriptor := [
  FIELD_OPTIONAL cs "stream" .TYPE_ANY,
  FIELD_OPTIONAL cs "encoding" .TYPE_STRING,
  FIELD_OPTIONAL cs "localEncoding" .TYPE_STRING,
  FIELD_OPTIONAL cs "etag" .TYPE_STRING,
  FIELD_OPTIONAL cs "volume" .TYPE_STRING,
  FIELD_REQUIRED cs "dsname" .TYPE_STRING,
  FIELD_OPTIONAL cs "data" .TYPE_STRING]

def WriteDatasetResponse : List FieldDescriptor := [
  FIELD_REQUIRED cs "success" .TYPE_BOOL,
  FIELD_REQUIRED cs "etag" .TYPE_STRING,
  FIELD_OPTIONAL cs "contentLen" .TYPE_NUMBER,
  FIELD_OPTIONAL cs "truncationWarning" .TYPE_STRING]

def create_ds_builder (handler : CommandHandler) : CommandBuilder :=
  { handler, transforms := [.RenameArg (cs.str "dsname") (cs.str "dsn")] }

def CommandBuilder.transform (builder : CommandBuilder) (transforms : List ArgTransform) :
    CommandBuilder :=
  { builder with transforms := builder.transforms ++ transforms }

/-- `validate`: unknown fields are allowed in requests but not in responses. -/
def CommandBuilder.validate (builder : CommandBuilder) (request response : List FieldDescriptor) :
    CommandBuilder :=
  { builder with request_schema := some request, response_schema := some response }

def readDataset (handle_data_set_view : CommandHandler) : CommandBuilder :=
  ((create_ds_builder cs handle_data_set_view).validate
    (ReadDatasetRequest cs) (ReadDatasetResponse cs)).transform [
      .RenameArg (cs.str "volume") (cs.str "volser"),
      .SetDefault (cs.str "encoding") (.string (cs.str "IBM-1047")),
      .SetDefault (cs.str "return-etag") (.bool true),
      .ReadStdout (cs.str "data") true,
      .HandleFifo (cs.str "stream") (cs.str "pipe-path") .GET false]

def writeDataset (handle_data_set_write : CommandHandler) : CommandBuilder :=
  ((create_ds_builder cs handle_data_set_write).validate
    (WriteDatasetRequest cs) (WriteDatasetResponse cs)).transform [
      .RenameArg (cs.str "volume") (cs.str "volser"),
      .SetDefault (cs.str "encoding") (.string (cs.str "IBM-1047")),
      .WriteStdin (cs.str "data") true,
      .HandleFifo (cs.str "stream") (cs.str "pipe-path") .PUT false]

end Zowex.server
