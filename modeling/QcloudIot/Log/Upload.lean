import QcloudIot.Lib.Bytes
import QcloudIot.Lib.Memory

/-!
# Uploading the log

The upload buffer of `log_upload.c`: `append_to_upload_buffer`, `clear_upload_buffer` and
`do_log_upload` with `_check_force_upload`, `_post_log_to_server`, `_save_log` and
`_reset_log_buffer`.

Any thread may append; one thread uploads. `append_to_upload_buffer` holds `lock_buf` all along and
is one step. `do_log_upload` is cut into steps at every place where another thread can get in: each
locked region is a step, and between two of them each search for a delimiter, each post and each
move of the buffer is one. Where the uploading thread is, with its local variables, is `Uploading`.

* `sg_log_buffer` is a memory; the uploader reads and writes it in place.
* What the thread learns from outside (the timer, the time and the signature that are stamped on
  the header, the answer to a post) comes in as `UploadEnv`.
* `accepted` and `gone` are no variables of the source: the entries accepted so far, and what has
  left the buffer, by a successful post or through `save_func`, in order.
* `_handle_saved_log` touches neither the buffer nor `sg_write_index` and is left out; so is what
  `save_func` returns, which `do_log_upload` ignores.
-/

namespace QcloudIot.Log

open Lib

/-- A run of bytes. -/
abbrev Bytes := List UInt8

/-! ## Constants -/

/-- `LOG_BUF_FIXED_HEADER_SIZE`: signature (40), control bytes (4), product id (10), device name
(48) and timestamp (10). -/
def logBufFixedHeaderSize : Nat := 40 + 4 + 10 + 48 + 10

/-- `LOG_UPLOAD_BUFFER_SIZE`. -/
def logUploadBufferSize : Nat := 5000

/-- `MAX_HTTP_LOG_POST_SIZE`. -/
def maxHttpLogPostSize : Nat := 3000

/-- `LOG_LOW_BUFFER_THRESHOLD`. -/
def logLowBufferThreshold : Nat := logUploadBufferSize / 4

/-- `'\n'` and `'\f'`, the two characters of `LOG_DELIMITER`. -/
def newline : UInt8 := 10

def formFeed : UInt8 := 12

/-! ## What the uploader meets -/

/-- The codes the posting functions return; `errHttp` stands for every error of the HTTP client. -/
inductive ReturnCode where
  | retSuccess | errInval | errFailure | errHttp
  deriving DecidableEq, Repr

/-- What `_update_time_and_signature` writes: ten characters of time, forty hexadecimal digits. -/
structure Stamp where
  timestamp : Bytes
  signature : Bytes
  length_timestamp : timestamp.length = 10
  length_signature : signature.length = 40
  plain : ∀ b ∈ timestamp ++ signature, b ≠ formFeed

/-- One step's news: the argument of `do_log_upload`, whether `upload_timer` has expired, what is
stamped on the header, and what `_post_one_http_to_server` returns. -/
structure UploadEnv where
  forceUpload : Bool
  expired : Bool
  stamp : Stamp
  post : ReturnCode

/-! ## The state -/

/-- The local variables of `_post_log_to_server` in its loop. -/
structure Posting where
  origPostSize : Nat
  postSize : Nat
  actualPostPayload : Nat
  deriving DecidableEq, Repr

/-- Where the uploading thread is in `do_log_upload`. -/
inductive Uploading where
  /-- Not in it. -/
  | idle
  /-- The check is passed and the saved log handled. -/
  | started
  /-- Before the first locked region. -/
  | sizing
  /-- At the start of `_post_log_to_server`; the argument is `upload_log_size`. -/
  | posting (size : Nat)
  /-- In the loop that locates the delimiters, with `possible_size` and `upload_size`. -/
  | locating (p : Posting) (possible upload : Nat)
  /-- The loop has ended with `upload_size`. -/
  | sending (p : Posting) (upload : Nat)
  /-- A fragment of `upload_size` has been posted. -/
  | moving (p : Posting) (upload : Nat)
  /-- `_post_log_to_server` has returned; the last argument is `actual_post_payload`. -/
  | posted (size : Nat) (rc : ReturnCode) (actual : Nat)
  /-- Before `_save_log`. -/
  | saving (size : Nat)
  /-- Before the last locked region. -/
  | closing (size : Nat)
  deriving DecidableEq, Repr

/-- What has left the buffer: the body of a successful post, with its header, or the data passed to
`save_func`. -/
inductive Gone where
  | posted (body : Bytes)
  | saved (data : Bytes)
  deriving DecidableEq, Repr

/-- The log bytes of it. -/
def Gone.logBytes : Gone → Bytes
  | .posted body => body.drop logBufFixedHeaderSize
  | .saved data => data

/-- The static variables of `log_upload.c`. -/
structure LogUploader where
  logBuffer : Memory UInt8
  writeIndex : Nat
  uploadOnlyInCommErr : Bool
  logSaveEnabled : Bool
  uploading : Uploading
  accepted : List Bytes
  gone : List Gone

/-- The header that `init_log_uploader` builds. The product id and the device name in it hold no
form feed. -/
structure Header where
  bytes : Bytes
  length_eq : bytes.length = logBufFixedHeaderSize
  plain : ∀ b ∈ bytes, b ≠ formFeed

namespace LogUploader

/-- As `init_log_uploader` leaves it. -/
def init (header : Header) (uploadOnlyInCommErr logSaveEnabled : Bool) : LogUploader where
  logBuffer := Memory.store (fun _ => 0) 0 header.bytes
  writeIndex := logBufFixedHeaderSize
  uploadOnlyInCommErr := uploadOnlyInCommErr
  logSaveEnabled := logSaveEnabled
  uploading := .idle
  accepted := []
  gone := []

/-- The log bytes in the buffer. -/
def contents (s : LogUploader) : Bytes :=
  s.logBuffer.load logBufFixedHeaderSize (s.writeIndex - logBufFixedHeaderSize)

/-- `_reset_log_buffer`. -/
def resetLogBuffer (s : LogUploader) : LogUploader :=
  { s with
    writeIndex := logBufFixedHeaderSize
    logBuffer := s.logBuffer.fill logBufFixedHeaderSize 0
      (logUploadBufferSize - logBufFixedHeaderSize) }

/-- `clear_upload_buffer`. -/
def clearUploadBuffer (s : LogUploader) : LogUploader := s.resetLogBuffer

/-- `append_to_upload_buffer`; `locked` says whether `HAL_MutexTryLock` gets the mutex. -/
def appendToUploadBuffer (s : LogUploader) (logContent : Bytes) (locked : Bool) : LogUploader :=
  if logContent = [] then s
  else if locked = false then s
  else if s.writeIndex + logContent.length + 1 > logUploadBufferSize then s
  else
    let writeIndex := s.writeIndex + logContent.length
    let logBuffer := s.logBuffer.store s.writeIndex logContent
    -- replace \r\n to \n\f as delimiter
    let logBuffer := (logBuffer.store (writeIndex - 1) [formFeed]).store (writeIndex - 2) [newline]
    { s with
      logBuffer := logBuffer
      writeIndex := writeIndex
      accepted := s.accepted ++ [logBuffer.load s.writeIndex logContent.length] }

/-- The result of `_check_force_upload`. -/
def checkForceUpload (s : LogUploader) (forceUpload expired : Bool) : Bool :=
  if forceUpload then true
  else if s.uploadOnlyInCommErr then false
  else if logUploadBufferSize - s.writeIndex < logLowBufferThreshold then true
  else expired

/-- What `_check_force_upload` does to the buffer. -/
def checkForceUploadBuffer (s : LogUploader) (forceUpload : Bool) : LogUploader :=
  if forceUpload = false ∧ s.uploadOnlyInCommErr ∧
      logUploadBufferSize - s.writeIndex < logLowBufferThreshold then s.resetLogBuffer
  else s

/-- `_update_time_and_signature`. -/
def updateTimeAndSignature (s : LogUploader) (stamp : Stamp) : LogUploader :=
  { s with
    logBuffer := (s.logBuffer.store (logBufFixedHeaderSize - 10) stamp.timestamp).store 0
      stamp.signature }

/-- `strstr(sg_log_buffer + p, LOG_DELIMITER)`, in a buffer that has `left` more bytes at `p`. -/
def strstrDelimiter (m : Memory UInt8) : (left p : Nat) → Option Nat
  | 0, _ => none
  | left + 1, p =>
    if m p = 0 then none
    else if m p = newline ∧ m (p + 1) = formFeed then some p
    else strstrDelimiter m left (p + 1)

/-- The next step of the loop that locates the delimiters. -/
def locate (m : Memory UInt8) (p : Posting) (possible upload : Nat) : Uploading :=
  if possible < maxHttpLogPostSize then
    -- remember last valid position
    let upload := possible
    match strstrDelimiter m (logUploadBufferSize - upload) upload with
    | none => .posted p.origPostSize .errInval p.actualPostPayload
    | some next =>
      let possible := next + 2
      -- end of log
      if m (next + 2) = 0 ∧ possible < maxHttpLogPostSize then .sending p possible
      else .locating p possible upload
  else .sending p upload

/-- `_post_one_http_to_server` of the first `size` bytes, after the header is stamped. -/
def postOneHttp (s : LogUploader) (size : Nat) (env : UploadEnv) : LogUploader :=
  let s := s.updateTimeAndSignature env.stamp
  if env.post = .retSuccess then { s with gone := s.gone ++ [.posted (s.logBuffer.load 0 size)] }
  else s

/-- A fragment of `upload` bytes has been posted: the left log moves forward. -/
def moveLeft (s : LogUploader) (p : Posting) (upload : Nat) : LogUploader :=
  let postPayload := upload - logBufFixedHeaderSize
  let postSize := p.postSize - postPayload
  let p' : Posting := ⟨p.origPostSize, postSize, p.actualPostPayload + postPayload⟩
  { s with
    logBuffer := (s.logBuffer.move logBufFixedHeaderSize upload (p.postSize - upload)).fill
      postSize 0 (p.origPostSize - postSize)
    uploading := if postSize > logBufFixedHeaderSize then .locating p' 0 0
      else .posted p.origPostSize .retSuccess p'.actualPostPayload }

/-- The locked region after a failed upload: new error logs should have been added, and parts of the
log may have been uploaded. -/
def makeRoom (s : LogUploader) (size actual : Nat) : LogUploader :=
  if actual = 0 then { s with uploading := .saving s.writeIndex }
  else
    let writeIndex := s.writeIndex - actual
    { s with
      logBuffer := (s.logBuffer.move (size - actual) size (s.writeIndex - size)).fill writeIndex 0
        (logUploadBufferSize - writeIndex)
      writeIndex := writeIndex
      uploading := .saving writeIndex }

/-- The last locked region: the new log of the meantime moves to the front. -/
def closeUpload (s : LogUploader) (size : Nat) : LogUploader :=
  if size = s.writeIndex then { s.resetLogBuffer with uploading := .idle }
  else
    let writeIndex := s.writeIndex - size + logBufFixedHeaderSize
    { s with
      logBuffer := (s.logBuffer.move logBufFixedHeaderSize size (s.writeIndex - size)).fill
        writeIndex 0 (logUploadBufferSize - writeIndex)
      writeIndex := writeIndex
      uploading := .idle }

/-- The next step of `do_log_upload`; from `idle` it is called. -/
def doLogUpload (s : LogUploader) (env : UploadEnv) : LogUploader :=
  match s.uploading with
  | .idle =>
    if s.checkForceUpload env.forceUpload env.expired then { s with uploading := .started }
    else s.checkForceUploadBuffer env.forceUpload
  | .started =>
    -- no more log in buffer
    { s with uploading := if s.writeIndex = logBufFixedHeaderSize then .idle else .sizing }
  | .sizing => { s with uploading := .posting s.writeIndex }
  | .posting size =>
    if size < maxHttpLogPostSize then
      { s.postOneHttp size env with
        uploading := .posted size env.post
          (if env.post = .retSuccess then size - logBufFixedHeaderSize else 0) }
    else { s with uploading := .locating ⟨size, size, 0⟩ 0 0 }
  | .locating p possible upload => { s with uploading := locate s.logBuffer p possible upload }
  | .sending p upload =>
    if upload = 0 then
      { s with uploading := .posted p.origPostSize .errFailure p.actualPostPayload }
    else
      { s.postOneHttp upload env with
        uploading := if env.post = .retSuccess then .moving p upload
          else .posted p.origPostSize .errFailure p.actualPostPayload }
  | .moving p upload => s.moveLeft p upload
  | .posted size rc actual =>
    -- save log via user callbacks when log upload fail
    if rc ≠ .retSuccess ∧ s.logSaveEnabled then s.makeRoom size actual
    else { s with uploading := .closing size }
  | .saving size =>
    { s with
      gone := s.gone ++ [.saved (s.logBuffer.load logBufFixedHeaderSize
        (size - logBufFixedHeaderSize))]
      uploading := .closing size }
  | .closing size => s.closeUpload size

/-- One step of some thread. -/
inductive Act where
  | append (logContent : Bytes) (locked : Bool)
  | upload (env : UploadEnv)
  | clear

/-- What a step does. -/
def step (s : LogUploader) : Act → LogUploader
  | .append logContent locked => s.appendToUploadBuffer logContent locked
  | .upload env => s.doLogUpload env
  | .clear => s.clearUploadBuffer

end LogUploader

end QcloudIot.Log
